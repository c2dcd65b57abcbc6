import Ecma.Proofs.Inheritance
import Ecma.Proofs.OwnProperty
import Ecma.Proofs.Rendering
import Ecma.Proofs.WholeNumber

/-!
# Arrays inside arrays

While an array is joined to a text, it has the empty text wherever it is met again. Where no array
is inside itself, this changes nothing: the arrays that are being joined are those that the present
one is inside of, and it contains none of them. `Realm.Renders` is the text of a value among the
elements of an array with no mention of what is being joined. The main result
`Realm.toText_renders` says that it is the text of an array that is not inside itself, at every
depth from the number of cells on, and that an array that two others share has its text in both.
-/

namespace Ecma

open Relation

variable {κ σ : Type}

/-! ## Plain arrays -/

namespace Realm

/-- An array has another one among its elements. -/
def Nests (r : Realm κ) (o x : ObjectId) : Prop :=
  ∃ data elements, r.heap.get? o = some data ∧ data.elements = some elements ∧
    Value.object x ∈ elements

/-- An array has some elements and no property of its own besides, and no method gives its text. -/
structure PlainArray (r : Realm κ) (o : ObjectId) (elements : Array Value) : Prop where
  object : ∃ data, r.heap.get? o = some data ∧ data.kind ≠ .error ∧
    data.elements = some elements ∧ ∀ key, data.properties.get? key = none
  size_le : elements.size ≤ indexLimit
  noSymbol : ∀ v ∈ elements, ∀ s, v ≠ .symbol s
  noMethod : ∀ name ∈ Hint.text.methods, r.property? o (.ofString name) = .ok none

/-- All arrays inside an array are plain, and none of them is inside itself. -/
structure PlainGraph (r : Realm κ) (o : ObjectId) : Prop where
  plain : ∀ x, ReflTransGen r.Nests o x → ∃ elements, r.PlainArray x elements
  acyclic : ∀ x, ReflTransGen r.Nests o x → ¬TransGen r.Nests x x

variable {r : Realm κ} {js : List ObjectId} {o x : ObjectId} {elements : Array Value} {v : Value}
  {t : Text}

theorem PlainGraph.of_nests (h : r.PlainGraph o) (hx : r.Nests o x) : r.PlainGraph x :=
  ⟨fun y hy => h.plain y (.head hx hy), fun y hy => h.acyclic y (.head hx hy)⟩

theorem property?_whileJoining (key : Text) :
    (r.whileJoining js).property? o key = r.property? o key := findProperty_whileJoining _

theorem PlainArray.whileJoining (h : r.PlainArray o elements) (js : List ObjectId) :
    (r.whileJoining js).PlainArray o elements where
  object := h.object
  size_le := h.size_le
  noSymbol := h.noSymbol
  noMethod name hname := (property?_whileJoining _).trans (h.noMethod name hname)

theorem PlainArray.nests_iff (h : r.PlainArray o elements) :
    r.Nests o x ↔ Value.object x ∈ elements := by
  obtain ⟨data, hd, -, he, -⟩ := h.object
  refine ⟨fun ⟨data', elements', hd', he', hx⟩ => ?_, fun hx => ⟨data, elements, hd, he, hx⟩⟩
  obtain rfl := Option.some.inj (hd.symm.trans hd')
  obtain rfl := Option.some.inj (he.symm.trans he')
  exact hx

/-! ## The texts of elements -/

/-- The text that a value has among the elements of an array. -/
inductive Renders (r : Realm κ) : Value → Text → Prop where
  | nullish {v : Value} (h : v.isNullish = true) : Renders r v .empty
  | primitive {v : Value} {t : Text} (hv : v.isObject = false) (hn : v.isNullish = false)
      (ht : v.toText = .ok t) : Renders r v t
  | array {o : ObjectId} {data : Object κ} {elements : Array Value} {texts : List Text}
      (hd : r.heap.get? o = some data) (he : data.elements = some elements)
      (hlength : texts.length = elements.size)
      (htexts : ∀ (i : Nat) (v : Value) (t : Text), elements[i]? = some v →
        texts[i]? = some t → Renders r v t) :
      Renders r (.object o) (.joinWith (.ofString ",") texts)

theorem Renders.of_forall₂ {data : Object κ} (texts : List Text)
    (hd : r.heap.get? o = some data) (he : data.elements = some elements)
    (h : List.Forall₂ r.Renders elements.toList texts) :
    r.Renders (.object o) (.joinWith (.ofString ",") texts) := by
  refine .array hd he (h.length_eq.symm.trans elements.length_toList) fun i v t hv ht => ?_
  rw [← Array.getElem?_toList] at hv
  obtain ⟨hi, rfl⟩ := List.getElem?_eq_some_iff.1 hv
  obtain ⟨hi', rfl⟩ := List.getElem?_eq_some_iff.1 ht
  exact h.get hi hi'

/-- A value has one text at most. -/
theorem Renders.unique {t' : Text} (h : r.Renders v t) (h' : r.Renders v t') : t = t' := by
  induction h generalizing t' with
  | nullish hn =>
    cases h' with
    | nullish => rfl
    | primitive hv hn' ht =>
      rw [hn] at hn'
      cases hn'
    | array hd he hlength htexts => cases hn
  | primitive hv hn ht =>
    cases h' with
    | nullish hn' =>
      rw [hn] at hn'
      cases hn'
    | primitive _ _ ht' => exact Except.ok.inj (ht.symm.trans ht')
    | array hd he hlength htexts => cases hv
  | @array o data elements texts hd he hlength htexts ih =>
    cases h' with
    | nullish hn => cases hn
    | primitive hv hn ht => cases hv
    | @array _ data' elements' texts' hd' he' hlength' htexts' =>
      obtain rfl := Option.some.inj (hd.symm.trans hd')
      obtain rfl := Option.some.inj (he.symm.trans he')
      congr 1
      refine List.ext_getElem (hlength.trans hlength'.symm) fun i hi hi' => ?_
      have hv : elements[i]? = some elements[i] := Array.getElem?_eq_getElem (hlength ▸ hi)
      have ht : texts[i]? = some texts[i] := List.getElem?_eq_getElem hi
      have ht' : texts'[i]? = some texts'[i] := List.getElem?_eq_getElem hi'
      exact ih i _ _ hv ht (htexts' i _ _ hv ht')

end Realm

/-! ## One array -/

namespace Object

variable {data : Object κ} {elements : Array Value}

theorem own?_lengthKey (hstored : ∀ key, data.properties.get? key = none)
    (he : data.elements = some elements) :
    data.own? lengthKey = some (.data (.ofNat elements.size) true false false) := by
  rw [own?, hstored, Option.none_or, elementProperty?_lengthKey, he]
  rfl

theorem own?_ofNat {i : Nat} {v : Value} (hstored : ∀ key, data.properties.get? key = none)
    (he : data.elements = some elements) (hv : elements[i]? = some v) (hi : i < indexLimit) :
    data.own? (.ofNat i) = some (.plain v) := by
  rw [own?, hstored, Option.none_or, elementProperty?_of_arrayIndex? (Text.arrayIndex?_ofNat hi) he,
    hv]
  rfl

end Object

namespace Engine

open Ecma.Action

variable (e : Engine κ σ) {w : World κ σ} {o : ObjectId} {elements : Array Value} {v : Value}
  {t : Text}

theorem get_of_own? {data : Object κ} {key : Text} {writable enumerable configurable : Bool}
    (hd : w.realm.heap.get? o = some data)
    (hown : data.own? key = some (.data v writable enumerable configurable)) (receiver : Value) :
    e.get o key receiver w = (.done v, w) :=
  (get_of_property? (e := e) (Realm.findProperty_of_own? hd hown _) receiver).2

theorem methodPrimitive_of_noMethod {names : List String}
    (h : ∀ name ∈ names, w.realm.property? o (.ofString name) = .ok none) :
    e.methodPrimitive o false names w = (.done none, w) := by
  induction names with
  | nil => rfl
  | cons name names ih =>
    obtain ⟨hname, hnames⟩ := List.forall_mem_cons.1 h
    have hget : e.get o (.ofString name) (.object o) w = (.done .undefined, w) :=
      (get_of_property? (e := e) hname _).2
    rw [methodPrimitive, bind_done hget, realm_bind]
    exact ih hnames

theorem elementTexts_of_plainArray (h : w.realm.PlainArray o elements) (rest : List Text) :
    ∀ (texts : List Text) (i : Nat),
      (∀ (j : Nat) (t : Text), rest[j]? = some t →
        ∃ v, elements[i + j]? = some v ∧ e.elementText v w = (.done t, w)) →
      e.elementTexts o texts i rest.length w = (.done (rest.reverse ++ texts), w) := by
  obtain ⟨data, hd, -, he, hstored⟩ := h.object
  induction rest with
  | nil => exact fun texts i _ => rfl
  | cons t rest ih =>
    intro texts i hrest
    obtain ⟨v, hv, ht⟩ := hrest 0 t rfl
    rw [Nat.add_zero] at hv
    have hlt : i < elements.size := (Array.getElem?_eq_some_iff.1 hv).1
    have hown := Object.own?_ofNat hstored he hv (Nat.lt_of_lt_of_le hlt h.size_le)
    rw [List.length_cons, elementTexts, bind_done (get_of_own? e hd hown _), bind_done ht,
      ih (t :: texts) (i + 1) fun j t' ht' => ?_]
    · simp
    · rw [Nat.add_right_comm]
      exact hrest (j + 1) t' ht'

theorem join_of_plainArray (h : w.realm.PlainArray o elements) {texts : List Text}
    (hlength : texts.length = elements.size)
    (htexts : ∀ (i : Nat) (v : Value) (t : Text), elements[i]? = some v → texts[i]? = some t →
      e.elementText v w = (.done t, w)) :
    e.join o w = (.done (.joinWith (.ofString ",") texts), w) := by
  obtain ⟨data, hd, -, he, hstored⟩ := h.object
  have hsize : elements.size < 2 ^ 53 := Nat.lt_of_le_of_lt h.size_le (by decide)
  have hcount : elementCount (.ofNat elements.size) = texts.length := by
    rw [hlength]
    exact Double.wholePart_ofNat hsize
  have helements : e.elementTexts o [] 0 texts.length w = (.done (texts.reverse ++ []), w) := by
    refine elementTexts_of_plainArray e h texts [] 0 fun j t ht => ?_
    have hj : j < elements.size := hlength ▸ (List.getElem?_eq_some_iff.1 ht).1
    rw [Nat.zero_add]
    have hv : elements[j]? = some elements[j] := Array.getElem?_eq_getElem hj
    exact ⟨_, hv, htexts j _ t hv ht⟩
  rw [join, bind_done (get_of_own? e hd (Object.own?_lengthKey hstored he) _), hcount,
    bind_done helements, List.append_nil, List.reverse_reverse]
  rfl

/-- An array that is not being joined has the texts of its elements, as they are while it is. -/
theorem toText_of_plainArray (h : w.realm.PlainArray o elements) (ho : o ∉ w.realm.joining)
    {texts : List Text} (hlength : texts.length = elements.size)
    (htexts : ∀ (i : Nat) (v : Value) (t : Text), elements[i]? = some v → texts[i]? = some t →
      e.elementText v ⟨w.realm.whileJoining (o :: w.realm.joining), w.host⟩ =
        (.done t, ⟨w.realm.whileJoining (o :: w.realm.joining), w.host⟩)) :
    e.toText (.object o) w = (.done (.joinWith (.ofString ",") texts), w) := by
  obtain ⟨data, hd, hkind, he, -⟩ := h.object
  have hjoin : e.join o ⟨w.realm.whileJoining (o :: w.realm.joining), w.host⟩ =
      (.done (.joinWith (.ofString ",") texts),
        ⟨w.realm.whileJoining (o :: w.realm.joining), w.host⟩) :=
    join_of_plainArray e (w := ⟨_, w.host⟩) (h.whileJoining _) hlength htexts
  have hattempt : (e.join o).attempt ⟨w.realm.whileJoining (o :: w.realm.joining), w.host⟩ =
      (.done (.ok (.joinWith (.ofString ",") texts)),
        ⟨w.realm.whileJoining (o :: w.realm.joining), w.host⟩) := by
    rw [attempt, hjoin]
  rw [toText_of_no_method e (methodPrimitive_of_noMethod e h.noMethod), defaultText,
    read_bind (Realm.object_eq_ok.2 hd), if_neg hkind, if_pos (by rw [he]; rfl), arrayText,
    realm_bind, if_neg ho]
  exact bind_done hattempt

end Engine

/-! ## Arrays that are not inside themselves -/

namespace Realm

variable {r : Realm κ} {js : List ObjectId} {o x : ObjectId} {elements : Array Value} {v : Value}
  {t : Text}

open Classical in
/-- How many cells there are inside an array, its own included. -/
noncomputable def span (r : Realm κ) (o : ObjectId) : Nat :=
  ((Finset.range r.heap.cells.size).filter fun i => ReflTransGen r.Nests o ⟨i⟩).card

theorem span_le (r : Realm κ) (o : ObjectId) : r.span o ≤ r.heap.cells.size := by
  classical
  unfold span
  exact (Finset.card_filter_le _ _).trans_eq (Finset.card_range _)

theorem span_pos {data : Object κ} (hd : r.heap.get? o = some data) : 0 < r.span o := by
  classical
  unfold span
  refine Finset.card_pos.2 ⟨o.index, ?_⟩
  rw [Finset.mem_filter, Finset.mem_range]
  exact ⟨Heap.lt_size_of_get? hd, .refl⟩

/-- An array that is not inside itself has less in each of its arrays. -/
theorem PlainGraph.span_lt (h : r.PlainGraph o) (hx : r.Nests o x) : r.span x < r.span o := by
  obtain ⟨data, elements, hd, -⟩ := id hx
  exact card_reached_lt hx (Heap.lt_size_of_get? hd) (h.acyclic o .refl)

/-- What is inside an array is not among the arrays that the array is inside of, nor is it the array
itself. -/
theorem PlainGraph.not_joining (h : r.PlainGraph o) (hjs : ∀ y ∈ js, ¬ReflTransGen r.Nests o y)
    (hx : r.Nests o x) : ∀ y ∈ o :: js, ¬ReflTransGen r.Nests x y := by
  intro y hy hreach
  rcases List.mem_cons.1 hy with rfl | hy
  · exact h.acyclic y .refl (.head' hx hreach)
  · exact hjs y hy (.head hx hreach)

theorem exists_renders_of_element (hsymbol : ∀ s, v ≠ .symbol s)
    (hobject : ∀ x, v = .object x → ∃ t, r.Renders v t) : ∃ t, r.Renders v t := by
  cases v with
  | undefined => exact ⟨_, .nullish rfl⟩
  | null => exact ⟨_, .nullish rfl⟩
  | symbol s => exact absurd rfl (hsymbol s)
  | object x => exact hobject x rfl
  | _ => exact ⟨_, .primitive rfl rfl rfl⟩

/-- An array that is not inside itself has a text. -/
theorem PlainGraph.exists_renders (h : r.PlainGraph o) : ∃ t, r.Renders (.object o) t := by
  -- by how many cells there are inside
  induction hn : r.span o using Nat.strong_induction_on generalizing o with
  | _ n ih =>
    obtain ⟨elements, hplain⟩ := h.plain o .refl
    have helement : ∀ v ∈ elements, ∃ t, r.Renders v t := by
      refine fun v hv => exists_renders_of_element (hplain.noSymbol v hv) fun x hx => ?_
      subst hx
      have hnests := hplain.nests_iff.2 hv
      exact ih _ (hn ▸ h.span_lt hnests) (h.of_nests hnests) rfl
    obtain ⟨data, hd, -, he, -⟩ := hplain.object
    choose! text htext using helement
    have htexts : List.Forall₂ r.Renders elements.toList (elements.toList.map text) :=
      List.forall₂_map_right_iff.2 (List.forall₂_same.2 fun v hv => htext v (by simpa using hv))
    exact ⟨_, .of_forall₂ _ hd he htexts⟩

end Realm

/-- What is inside an array has its text there while the arrays that it is inside of are joined. -/
theorem Realm.Renders.elementText_eq {r : Realm κ} {v : Value} {t : Text} (h : r.Renders v t)
    (lib : Library κ σ) (host : σ) :
    ∀ (depth : Nat) (js : List ObjectId),
      (∀ o, v = .object o → r.PlainGraph o ∧ r.span o ≤ depth ∧
        ∀ y ∈ js, ¬ReflTransGen r.Nests o y) →
      (lib.engine (depth + 1)).elementText v ⟨r.whileJoining js, host⟩ =
        (.done t, ⟨r.whileJoining js, host⟩) := by
  -- a level of arrays takes a level of depth, and there are fewer levels than cells inside
  induction h with
  | nullish hn =>
    intro depth js _
    rw [Engine.elementText, if_pos hn]
    rfl
  | primitive hv hn ht =>
    intro depth js _
    rw [Engine.elementText, if_neg (by rw [hn]; nofun)]
    show (lib.engine depth).toText _ _ = _
    rw [Engine.toText_of_not_object _ hv, ht]
    rfl
  | @array o data elements texts hd he hlength htexts ih =>
    intro depth js hready
    obtain ⟨hgraph, hdepth, hjs⟩ := hready o rfl
    obtain ⟨elements', hplain⟩ := hgraph.plain o .refl
    obtain rfl : elements' = elements := by
      obtain ⟨data', hd', -, he', -⟩ := hplain.object
      obtain rfl := Option.some.inj (hd.symm.trans hd')
      exact Option.some.inj (he'.symm.trans he)
    refine Engine.toText_of_plainArray _ (w := ⟨r.whileJoining js, host⟩)
      (hplain.whileJoining js) (fun ho => hjs o ho .refl) hlength fun i v t hv ht => ?_
    have hpos := Realm.span_pos hd
    cases depth with
    | zero => omega
    | succ depth =>
      refine ih i v t hv ht depth (o :: js) fun x hx => ?_
      subst hx
      have hnests := hplain.nests_iff.2 (Array.mem_of_getElem? hv)
      have hspan := hgraph.span_lt hnests
      exact ⟨hgraph.of_nests hnests, by omega, hgraph.not_joining hjs hnests⟩

namespace Realm

/-- Being joined changes nothing for arrays that are not inside themselves. Where the arrays inside
an array are plain and none of them is inside itself, and none of them is being joined, the array
has one text: the texts of its elements, joined with commas, where undefined and null have none and
an array has its own text wherever it stands. Converting the array gives that text at every depth
from the number of cells on, and changes nothing. -/
theorem toText_renders {r : Realm κ} {a : ObjectId} (hgraph : r.PlainGraph a)
    (hjoining : ∀ x ∈ r.joining, ¬ReflTransGen r.Nests a x) (lib : Library κ σ) :
    ∃ t, r.Renders (.object a) t ∧ (∀ t', r.Renders (.object a) t' → t' = t) ∧
      ∀ depth host, r.heap.cells.size ≤ depth →
        (lib.engine depth).toText (.object a) ⟨r, host⟩ = (.done t, ⟨r, host⟩) := by
  obtain ⟨t, ht⟩ := hgraph.exists_renders
  refine ⟨t, ht, fun t' ht' => ht'.unique ht, fun depth host hdepth => ?_⟩
  refine ht.elementText_eq lib host depth r.joining fun o ho => ?_
  obtain rfl := Value.object.inj ho
  exact ⟨hgraph, (r.span_le a).trans hdepth, hjoining⟩

/-- An array that another one has twice has its text there in both places. -/
theorem toText_renders_shared :
    let r : Realm Unit := [.createArray #[.boolean true, .null],
      .createArray #[.object ⟨10⟩, .null, .object ⟨10⟩]].foldl answer (fresh {})
    r.PlainGraph ⟨11⟩ ∧ r.joining = [] ∧
      ∀ depth, r.heap.cells.size ≤ depth →
        (Library.silent.engine depth).toText (.object ⟨11⟩) ⟨r, ()⟩ =
          (.done (.ofString "true,,,true,"), ⟨r, ()⟩) := by
  intro r
  have hinner : r.PlainArray ⟨10⟩ #[.boolean true, .null] := by
    refine ⟨⟨_, rfl, by decide, rfl, fun key => rfl⟩, by decide, by simp, ?_⟩
    decide +kernel
  have houter : r.PlainArray ⟨11⟩ #[.object ⟨10⟩, .null, .object ⟨10⟩] := by
    refine ⟨⟨_, rfl, by decide, rfl, fun key => rfl⟩, by decide, by simp, ?_⟩
    decide +kernel
  have hleaf : ∀ x, ¬r.Nests ⟨10⟩ x := fun x hx => by simpa using hinner.nests_iff.1 hx
  have hchild : ∀ x, r.Nests ⟨11⟩ x → x = ⟨10⟩ := fun x hx => by
    simpa using houter.nests_iff.1 hx
  have hinside : ∀ x, ReflTransGen r.Nests ⟨11⟩ x → x = ⟨11⟩ ∨ x = ⟨10⟩ := by
    intro x hx
    rcases hx.cases_head with rfl | ⟨y, hy, hyx⟩
    · exact Or.inl rfl
    · obtain rfl := hchild y hy
      rcases hyx.cases_head with rfl | ⟨z, hz, -⟩
      · exact Or.inr rfl
      · exact absurd hz (hleaf z)
  have hgraph : r.PlainGraph ⟨11⟩ := by
    refine ⟨fun x hx => ?_, fun x hx hcycle => ?_⟩
    · rcases hinside x hx with rfl | rfl
      · exact ⟨_, houter⟩
      · exact ⟨_, hinner⟩
    · obtain ⟨y, hxy, hyx⟩ := TransGen.head'_iff.1 hcycle
      rcases hinside x hx with rfl | rfl
      · obtain rfl := hchild y hxy
        rcases hyx.cases_head with heq | ⟨z, hz, -⟩
        · cases heq
        · exact hleaf z hz
      · exact hleaf y hxy
  have hpart : r.Renders (.object ⟨10⟩) (.ofString "true,") :=
    .of_forall₂ [.ofString "true", .empty] rfl rfl
      (.cons (.primitive rfl rfl rfl) (.cons (.nullish rfl) .nil))
  have hrenders : r.Renders (.object ⟨11⟩) (.ofString "true,,,true,") :=
    .of_forall₂ [.ofString "true,", .empty, .ofString "true,"] rfl rfl
      (.cons hpart (.cons (.nullish rfl) (.cons hpart .nil)))
  have hjoining : r.joining = [] := rfl
  obtain ⟨t, -, hunique, hrun⟩ := toText_renders hgraph (by rw [hjoining]; nofun) Library.silent
  obtain rfl := hunique _ hrenders
  exact ⟨hgraph, hjoining, fun depth hdepth => hrun depth () hdepth⟩

end Realm

end Ecma
