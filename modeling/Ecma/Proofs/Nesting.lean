import Ecma.Proofs.Spelling
import Ecma.Proofs.Tiling

/-!
# Braces and substitutions on one stack

A scanner counts open braces and remembers the count at each open substitution. The tokens it gives
tell the same story on a single stack of what is open: `Token.replay` pushes and pops it. The two
agree at all times (`Scanner.nesting_after`), so a closing brace closes a substitution exactly if
one is on top of the stack.
-/

namespace Ecma

/-- What can be open. -/
inductive Opened where
  | brace
  | substitution
deriving DecidableEq, Repr

/-- The stack without its top, if that is the given one. -/
def Opened.pop (o : Opened) : List Opened → List Opened
  | [] => []
  | top :: below => if top = o then below else top :: below

/-- What a token of the kind opens. -/
def TokenKind.opens : TokenKind → Option Opened
  | punctuator .leftBrace => some .brace
  | template .head _ _ => some .substitution
  | _ => none

/-- Whether the token stands for a part of a template behind a substitution, or for text that should
have been one. -/
def TokenKind.continuesTemplate : TokenKind → Bool
  | template .middle _ _ | template .tail _ _ | invalid .unterminatedTemplate => true
  | _ => false

namespace Token

/-- Whether the token was read from a closing brace on. -/
def atClosingBrace (t : Token) : Bool := t.raw.toList.head? == some '\x7d'

/-- What is open behind a token. A part that goes on to another substitution leaves the one on top
open; the last part, and one that is broken off, closes it. A part that is broken off can be told
from a template that never got to a substitution by the brace it starts with. -/
def replay (stack : List Opened) (t : Token) : List Opened :=
  match t.kind with
  | .punctuator .leftBrace => .brace :: stack
  | .template .head _ _ => .substitution :: stack
  | .punctuator .rightBrace => Opened.brace.pop stack
  | .template .tail _ _ => Opened.substitution.pop stack
  | .invalid .unterminatedTemplate =>
    if t.atClosingBrace then Opened.substitution.pop stack else stack
  | _ => stack

end Token

namespace Nesting

/-- The counts that belong to a stack. -/
def ofStack : List Opened → Nesting
  | [] => outermost
  | .brace :: below => (ofStack below).openBrace
  | .substitution :: below => (ofStack below).openSubstitution

/-- The counts behind what a token opens. -/
def behindOpening (n : Nesting) : Option Opened → Nesting
  | some .brace => n.openBrace
  | some .substitution => n.openSubstitution
  | none => n

/-- The counts at the open substitutions do not decrease inwards, and none is above the depth. -/
structure Ordered (n : Nesting) : Prop where
  pairwise : n.substitutions.Pairwise (· ≥ ·)
  le_depth : ∀ d ∈ n.substitutions, d ≤ n.depth

theorem ordered_ofStack (stack : List Opened) : (ofStack stack).Ordered := by
  induction stack with
  | nil => exact ⟨.nil, nofun⟩
  | cons o below ih =>
    cases o with
    | brace => exact ⟨ih.pairwise, fun d hd => Nat.le_succ_of_le (ih.le_depth d hd)⟩
    | substitution =>
      refine ⟨.cons ih.le_depth ih.pairwise, fun d hd => ?_⟩
      rcases List.mem_cons.1 hd with rfl | hd
      · exact Nat.le_refl _
      · exact ih.le_depth d hd

/-- The count at the innermost substitution is the depth exactly if the substitution is on top. -/
theorem atSubstitution_ofStack (stack : List Opened) :
    (ofStack stack).atSubstitution = true ↔ stack.head? = some .substitution := by
  rcases stack with _ | ⟨_ | _, below⟩
  · simp [ofStack, outermost, atSubstitution]
  · have hle := (ordered_ofStack below).le_depth
    have hne : (ofStack below).substitutions.head? ≠ some ((ofStack below).depth + 1) := by
      intro h
      have := hle _ (List.mem_of_mem_head? h)
      omega
    simpa [ofStack, openBrace, atSubstitution] using hne
  · simp [ofStack, openSubstitution, atSubstitution]

theorem closeBrace_ofStack {stack : List Opened} (h : stack.head? ≠ some .substitution) :
    (ofStack stack).closeBrace = ofStack (Opened.brace.pop stack) := by
  rcases stack with _ | ⟨_ | _, below⟩
  · rfl
  · rfl
  · exact absurd rfl h

/-- Where no substitution is on top, the depth counts at least the brace on top. -/
theorem substitutions_eq_nil {stack : List Opened} (h : stack.head? ≠ some .substitution)
    (hd : (ofStack stack).depth = 0) : (ofStack stack).substitutions = [] := by
  rcases stack with _ | ⟨_ | _, below⟩
  · rfl
  · cases hd
  · exact absurd rfl h

end Nesting

/-! ## One token -/

namespace TokenKind

/-- Whether a token of the kind starts with a closing brace. -/
def closes : TokenKind → Bool
  | punctuator .rightBrace | template .middle _ _ | template .tail _ _ => true
  | _ => false

/-- A kind of token that neither opens nor closes anything. -/
def IsInert (k : TokenKind) : Prop := k.opens = none ∧ k.closes = false

theorem IsNumeral.isInert {k : TokenKind} (h : k.IsNumeral) : k.IsInert := by
  cases k with
  | number | legacyOctal | bigInt => exact ⟨rfl, rfl⟩
  | _ => exact h.elim

theorem IsWord.isInert {k : TokenKind} (h : k.IsWord) : k.IsInert := by
  cases k with
  | identifier | keyword | boolean | null => exact ⟨rfl, rfl⟩
  | _ => exact h.elim

end TokenKind

/-- A lexeme opens what its kind says and closes nothing. -/
def Lexeme.OnlyOpens (n : Nesting) (l : Lexeme) : Prop :=
  l.kind.closes = false ∧ l.nesting = n.behindOpening l.kind.opens

theorem onlyOpens_lexRead {α : Type} (n : Nesting) {f : α → TokenKind} {r : Read α}
    (h : ∀ a rest, r = .done a rest → (f a).IsInert) : (lexRead n f r).OnlyOpens n := by
  have hk : (r.kind f).IsInert := Read.kind_of (P := TokenKind.IsInert) (fun _ => ⟨rfl, rfl⟩) h
  refine ⟨hk.2, ?_⟩
  show n = n.behindOpening (r.kind f).opens
  rw [hk.1]
  rfl

theorem onlyOpens_lexTemplate (n : Nesting) (cs : List Char) :
    (lexTemplate .whole .head n cs).OnlyOpens n := by
  unfold lexTemplate
  cases readTemplate cs with
  | refused complaint rest => exact ⟨rfl, rfl⟩
  | done b rest =>
    obtain ⟨cooked, raw, closed⟩ := b
    cases closed <;> exact ⟨rfl, rfl⟩

theorem onlyOpens_lexPunctuator (n : Nesting) {c : Char} (hc : c ≠ '\x7d') (cs : List Char) :
    (lexPunctuator n c cs).OnlyOpens n := by
  unfold lexPunctuator
  split
  · rename_i p rest hread
    have hp : p ≠ .rightBrace := by
      rintro rfl
      exact hc (List.cons.inj (Punctuator.readFrom?_spelling hread)).1
    cases p with
    | rightBrace => exact absurd rfl hp
    | _ => exact ⟨rfl, rfl⟩
  · exact ⟨rfl, rfl⟩

/-- Only a token that starts with a closing brace closes something. -/
theorem onlyOpens_lex (strict : Bool) (goal : Goal) (n : Nesting) {c : Char} (hc : c ≠ '\x7d')
    (cs : List Char) : (lex strict goal n (c :: cs)).OnlyOpens n := by
  have hbrace : (c == '\x7d') = false := by simpa using hc
  unfold lex
  simp only [hbrace, Bool.false_and, Bool.false_eq_true, if_false]
  split
  · exact onlyOpens_lexRead n fun name _ _ => (kindOfName_isWord name).isInert
  split
  · exact onlyOpens_lexRead n fun _ _ _ => ⟨rfl, rfl⟩
  split
  · exact onlyOpens_lexTemplate n cs
  split
  · exact onlyOpens_lexRead n fun _ _ _ => ⟨rfl, rfl⟩
  split
  · exact onlyOpens_lexRead n fun kind rest hr =>
      (readNumber_yields strict c cs kind rest hr).isInert
  · exact onlyOpens_lexPunctuator n hc cs

/-- A closing brace goes on with the template at whose substitution it stands, or is a token of its
own. -/
theorem lex_closingBrace (strict : Bool) (goal : Goal) (n : Nesting) (cs : List Char) :
    lex strict goal n ('\x7d' :: cs) =
      if n.atSubstitution then lexTemplate .tail .middle n.closeSubstitution cs
      else ⟨.punctuator .rightBrace, cs, n.closeBrace⟩ := by
  have hstart : isIdentifierStart '\x7d' = false := by decide
  have hdigit : isDecimalDigit '\x7d' = false := by decide
  unfold lex
  cases n.atSubstitution <;>
    simp [hstart, hdigit, lexPunctuator, Punctuator.readFrom?, nestingOfPunctuator]

/-- What is open behind a token that closes nothing. -/
theorem replay_of_onlyOpens {t : Token} (stack : List Opened) (hc : t.kind.closes = false)
    (hb : t.atClosingBrace = false) :
    Nesting.ofStack (t.replay stack) = (Nesting.ofStack stack).behindOpening t.kind.opens := by
  unfold Token.replay
  split
  · rename_i h
    rw [h]
    rfl
  · rename_i h
    rw [h]
    rfl
  · rename_i h
    rw [h] at hc
    cases hc
  · rename_i h
    rw [h] at hc
    cases hc
  · rename_i h
    rw [h, hb]
    rfl
  · rename_i hbrace hhead _ _ _
    have hopens : t.kind.opens = none := by
      unfold TokenKind.opens
      split
      · rename_i h
        exact absurd h hbrace
      · rename_i h
        exact absurd h (hhead _ _)
      · rfl
    rw [hopens]
    rfl

/-- A template part is refused only for want of its end. -/
theorem readTemplate_refused {cs rest : List Char} {complaint : Complaint}
    (h : readTemplate cs = .refused complaint rest) : complaint = .unterminatedTemplate := by
  fun_induction readTemplate cs with
  | case1 =>
    cases h
    rfl
  | case2 => cases h
  | case3 cs _ escape ih => exact ih (Read.map_eq_refused.1 h)
  | case4 cs _ _ ih => exact ih (Read.map_eq_refused.1 h)
  | case5 => cases h
  | case6 c cs _ _ _ _ ih => exact ih (Read.map_eq_refused.1 h)

/-- What a token tells of a closing brace fits the stack before it: only a token that starts with
one closes something; it is a token of its own where a brace or nothing is on top, and goes on with
a template, or is broken off, where a substitution is. -/
structure Token.Follows (stack : List Opened) (t : Token) : Prop where
  of_closes : t.kind.closes = true → t.atClosingBrace = true
  rightBrace_iff : t.atClosingBrace = true →
    (t.kind = .punctuator .rightBrace ↔ stack.head? = some .brace ∨ stack = [])
  continues_iff : t.atClosingBrace = true →
    (t.kind.continuesTemplate = true ↔ stack.head? = some .substitution)

theorem Token.Follows.of_not_atClosingBrace {stack : List Opened} {t : Token}
    (hb : t.atClosingBrace = false) (hc : t.kind.closes = false) : t.Follows stack := by
  refine ⟨fun h => ?_, fun h => ?_, fun h => ?_⟩
  · rw [hc] at h
    cases h
  all_goals
    rw [hb] at h
    cases h

/-- A closing brace at a substitution. -/
theorem follows_lexTemplate {below : List Opened} {cs : List Char} {t : Token}
    (hk : t.kind = (lexTemplate .tail .middle (.ofStack below) cs).kind)
    (hb : t.atClosingBrace = true) :
    t.Follows (.substitution :: below) ∧
      (lexTemplate .tail .middle (.ofStack below) cs).nesting =
        .ofStack (t.replay (.substitution :: below)) := by
  have hfollows : t.kind ≠ .punctuator .rightBrace → t.kind.continuesTemplate = true →
      t.Follows (.substitution :: below) := by
    intro hne hc
    exact ⟨fun _ => hb, fun _ => by simp [hne], fun _ => by simp [hc]⟩
  unfold lexTemplate at hk ⊢
  dsimp only at hk ⊢
  cases hr : readTemplate cs with
  | refused complaint rest =>
    obtain rfl := readTemplate_refused hr
    rw [hr] at hk
    refine ⟨hfollows (by rw [hk]; exact nofun) (by rw [hk]; rfl), ?_⟩
    simp only [Token.replay, hk, Read.kind, hb, if_true]
    rfl
  | done b rest =>
    obtain ⟨cooked, raw, closed⟩ := b
    rw [hr] at hk
    refine ⟨hfollows (by rw [hk]; exact nofun) ?_, ?_⟩
    · rw [hk]
      cases closed <;> rfl
    · cases closed <;> simp only [Token.replay, hk, Read.kind, kindOfTemplate] <;> rfl

/-- A closing brace that is a token of its own. -/
theorem follows_rightBrace {stack : List Opened} {t : Token} (hs : stack.head? ≠ some .substitution)
    (hk : t.kind = .punctuator .rightBrace) (hb : t.atClosingBrace = true) :
    t.Follows stack ∧ (Nesting.ofStack stack).closeBrace = .ofStack (t.replay stack) := by
  refine ⟨⟨fun _ => hb, fun _ => ?_, fun _ => ?_⟩, ?_⟩
  · rw [hk]
    rcases stack with _ | ⟨_ | _, below⟩
    · simp
    · simp
    · exact absurd rfl hs
  · rw [hk]
    simp [hs, TokenKind.continuesTemplate]
  · rw [Nesting.closeBrace_ofStack hs, Token.replay, hk]

/-- A token fits the stack before it, and the counts behind it belong to the replayed stack. -/
theorem follows_lex (strict : Bool) (goal : Goal) (stack : List Opened) (cs : List Char) {t : Token}
    (hk : t.kind = (lex strict goal (.ofStack stack) cs).kind)
    (hb : t.atClosingBrace = (cs.head? == some '\x7d')) :
    t.Follows stack ∧
      (lex strict goal (.ofStack stack) cs).nesting = .ofStack (t.replay stack) := by
  cases cs with
  | nil =>
    refine ⟨.of_not_atClosingBrace hb (by rw [hk]; rfl), ?_⟩
    rw [Token.replay, hk]
    rfl
  | cons c cs =>
    by_cases hc : c = '\x7d'
    · subst hc
      rw [lex_closingBrace] at hk ⊢
      by_cases hs : stack.head? = some .substitution
      · obtain ⟨below, rfl⟩ : ∃ below, stack = .substitution :: below := by
          cases stack with
          | nil => cases hs
          | cons o below => exact ⟨below, by rw [← Option.some.inj hs]⟩
        rw [if_pos ((Nesting.atSubstitution_ofStack _).2 hs)] at hk ⊢
        exact follows_lexTemplate hk hb
      · rw [if_neg fun h => hs ((Nesting.atSubstitution_ofStack _).1 h)] at hk ⊢
        exact follows_rightBrace hs hk hb
    · have hb' : t.atClosingBrace = false := by
        rw [hb]
        simpa using hc
      obtain ⟨hcloses, hnesting⟩ := onlyOpens_lex strict goal (.ofStack stack) hc cs
      rw [← hk] at hcloses hnesting
      exact ⟨.of_not_atClosingBrace hb' hcloses,
        hnesting.trans (replay_of_onlyOpens stack hcloses hb').symm⟩

/-! ## Runs -/

namespace Scanner

/-- The raw text of a token starts where the token does. -/
theorem head?_textBefore_lex (strict : Bool) (goal : Goal) (n : Nesting) (cs : List Char) :
    (textBefore cs (lex strict goal n cs).rest).head? = cs.head? := by
  cases cs with
  | nil => rfl
  | cons c cs =>
    have hlt := rest_lex_length (kind_lex_ne strict goal n c cs)
    rw [textBefore, List.head?_take, if_neg (by omega)]

/-- Every token fits the stack before it, and the counts behind it belong to the replayed stack. -/
theorem next_follows (goal : Goal) {s : Scanner} {stack : List Opened}
    (hs : s.nesting = .ofStack stack) :
    (s.next goal).1.Follows stack ∧
      (s.next goal).2.nesting = .ofStack ((s.next goal).1.replay stack) := by
  rw [next_eq]
  split
  · rename_i comment heq
    have hb : (s.finishUnclosed comment).1.atClosingBrace = false := by
      simp [finishUnclosed, Token.atClosingBrace, head?_unclosed heq]
    exact ⟨.of_not_atClosingBrace hb rfl, hs⟩
  · rename_i newline rest heq
    simp only [finishGap, hs]
    refine follows_lex s.strict goal stack rest rfl ?_
    rw [Token.atClosingBrace, String.toList_ofList, head?_textBefore_lex]

/-- The scanner behind the tokens for a sequence of goals. -/
def after : List Goal → Scanner → Scanner
  | [], s => s
  | goal :: goals, s => after goals (s.next goal).2

/-- At all times the counts belong to the stack that the tokens replay. -/
theorem nesting_after (goals : List Goal) {s : Scanner} {stack : List Opened}
    (hs : s.nesting = .ofStack stack) :
    (s.after goals).nesting = .ofStack ((s.run goals).foldl Token.replay stack) := by
  induction goals generalizing s stack with
  | nil => exact hs
  | cons goal goals ih => exact ih (next_follows goal hs).2

end Scanner

/-- Whatever the goals, the counts of braces and substitutions are those of the one stack that the
tokens replay. They do not decrease inwards and none is above the depth. The next token fits the
stack: a closing brace closes a substitution exactly if one is on top. Where it closes a brace that
is not open, no substitution is open either. -/
theorem closing_braces_follow_stack (source : String) (strict : Bool) (goals : List Goal)
    (goal : Goal) :
    let s := (Scanner.ofString source strict).after goals
    let stack := ((Scanner.ofString source strict).run goals).foldl Token.replay []
    let t := (s.next goal).1
    s.nesting = .ofStack stack ∧ t.Follows stack ∧ s.nesting.Ordered ∧
      (t.kind = .punctuator .rightBrace → s.nesting.depth = 0 → s.nesting.substitutions = []) := by
  intro s stack t
  have hs : s.nesting = .ofStack stack :=
    Scanner.nesting_after goals (s := .ofString source strict) rfl
  have ht : t.Follows stack := (Scanner.next_follows goal hs).1
  refine ⟨hs, ht, hs ▸ Nesting.ordered_ofStack stack, fun hk hd => ?_⟩
  have htop : stack.head? ≠ some .substitution := by
    intro htop
    have hb := ht.of_closes (by rw [hk]; rfl)
    have hc := (ht.continues_iff hb).2 htop
    rw [hk] at hc
    cases hc
  rw [hs] at hd ⊢
  exact Nesting.substitutions_eq_nil htop hd

end Ecma
