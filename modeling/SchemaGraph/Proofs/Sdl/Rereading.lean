import Mathlib.Algebra.Order.BigOperators.Group.List
import SchemaGraph.Proofs.Sdl.Floats
import SchemaGraph.Proofs.Sdl.Literals

/-! What the texts of values are read as. Only floating-point numbers are read as something else
than they are: their texts have no exponent and need not have a point. -/

namespace SchemaGraph

open Decimal

namespace Binary64

/-- No negative zero and no negative infinity, and if finite, below the end of the integers. These
are the numbers that are read from their own texts as what they are. -/
def Legible : Binary64 → Prop
  | .finite negative m e =>
    (m = 0 → negative = false) ∧ (ratio m e).num < (ratio m e).den * 2 ^ 63
  | .infinite negative => negative = false

instance : DecidablePred Legible
  | .finite negative m e => inferInstanceAs (Decidable ((m = 0 → negative = false) ∧
      (ratio m e).num < (ratio m e).den * 2 ^ 63))
  | .infinite negative => inferInstanceAs (Decidable (negative = false))

def reread : Binary64 → Sdl.Value
  | .infinite _ => .enum "inf"
  | .finite negative m e =>
    if m = 0 then .int 0
    else
      match (shortest .up m e).exponent with
      | .ofNat k => .int (Sdl.signedInt negative ((shortest .up m e).digits * 10 ^ k))
      | .negSucc _ => .float (.finite negative m e)

theorem legible_iff {m : Nat} (hm : m ≠ 0) (e : Int) (negative : Bool) :
    (finite negative m e).Legible ↔ m * (2 : ℚ) ^ e < 2 ^ 63 := by
  have hden := (positive_ratio (Nat.pos_of_ne_zero hm) e).2
  have hvalue := Ratio.toRat_lt_natCast_iff hden (n := 2 ^ 63)
  rw [toRat_ratio, Nat.cast_pow, Nat.cast_ofNat] at hvalue
  rw [Legible, hvalue]
  exact and_iff_right fun hzero => absurd hzero hm

end Binary64

namespace Sdl

mutual

def Value.floats : Value → List Binary64
  | .float x => [x]
  | .list items => itemFloats items
  | .object entries => entryFloats entries
  | _ => []

def itemFloats : List Value → List Binary64
  | [] => []
  | v :: vs => v.floats ++ itemFloats vs

def entryFloats : List (String × Value) → List Binary64
  | [] => []
  | (_, v) :: es => v.floats ++ entryFloats es

end

def Value.Legible (v : Value) : Prop := ∀ x ∈ v.floats, x.Legible

instance : DecidablePred Value.Legible := fun v =>
  inferInstanceAs (Decidable (∀ x ∈ v.floats, x.Legible))

mutual

def Value.reread : Value → Value
  | .float x => x.reread
  | .list items => .list (rereadItems items)
  | .object entries => .object (rereadEntries entries)
  | v => v

def rereadItems : List Value → List Value
  | [] => []
  | v :: vs => v.reread :: rereadItems vs

def rereadEntries : List (String × Value) → List (String × Value)
  | [] => []
  | (name, v) :: es => (name, v.reread) :: rereadEntries es

end

theorem legible_list {items : List Value} :
    (Value.list items).Legible ↔ ∀ v ∈ items, v.Legible := by
  have hfloats : ∀ vs : List Value, itemFloats vs = vs.flatMap Value.floats := by
    intro vs
    induction vs with
    | nil => rw [itemFloats, List.flatMap_nil]
    | cons v vs ih => rw [itemFloats, List.flatMap_cons, ih]
  unfold Value.Legible
  rw [Value.floats, hfloats, List.forall_mem_flatMap]

theorem legible_object {entries : List (String × Value)} :
    (Value.object entries).Legible ↔ ∀ e ∈ entries, e.2.Legible := by
  have hfloats : ∀ es : List (String × Value), entryFloats es = es.flatMap (·.2.floats) := by
    intro es
    induction es with
    | nil => rw [entryFloats, List.flatMap_nil]
    | cons e es ih => rw [entryFloats, List.flatMap_cons, ih]
  unfold Value.Legible
  rw [Value.floats, hfloats, List.forall_mem_flatMap]

theorem reread_list (items : List Value) :
    (Value.list items).reread = .list (items.map Value.reread) := by
  have hitems : ∀ vs : List Value, rereadItems vs = vs.map Value.reread := by
    intro vs
    induction vs with
    | nil => rw [rereadItems, List.map_nil]
    | cons v vs ih => rw [rereadItems, List.map_cons, ih]
  rw [Value.reread, hitems]

theorem reread_object (entries : List (String × Value)) :
    (Value.object entries).reread = .object (entries.map fun e => (e.1, e.2.reread)) := by
  have hentries : ∀ es : List (String × Value),
      rereadEntries es = es.map fun e => (e.1, e.2.reread) := by
    intro es
    induction es with
    | nil => rw [rereadEntries, List.map_nil]
    | cons e es ih => rw [rereadEntries, List.map_cons, ih]
  rw [Value.reread, hentries]

structure Value.Rereads (constant : Bool) (v : Value) : Prop where
  lexes : Lexes v.render.toList v.reread.tokens
  notBad : .bad ∉ v.reread.tokens
  readable : v.reread.Readable constant
  same : v.Legible → v.reread.render = v.render
  shorter : ¬v.Legible → v.reread.render.length < v.render.length

theorem Value.Rereads.length_le {constant : Bool} {v : Value} (h : v.Rereads constant) :
    v.reread.render.length ≤ v.render.length := by
  by_cases hlegible : v.Legible
  · exact le_of_eq (congrArg String.length (h.same hlegible))
  · exact le_of_lt (h.shorter hlegible)

theorem rereads_of_eq {constant : Bool} {v : Value} (h : v.Readable constant)
    (hreread : v.reread = v) (hlegible : v.Legible) (hbad : .bad ∉ v.tokens) :
    v.Rereads constant := by
  refine ⟨?_, ?_, ?_, fun _ => by rw [hreread], fun hno => absurd hlegible hno⟩
  · rw [hreread]
    exact h.lexes
  · rwa [hreread]
  · rwa [hreread]

theorem rereads_of_floats_eq_nil {constant : Bool} {v : Value} (h : v.Readable constant)
    (hreread : v.reread = v) (hfloats : v.floats = []) (hbad : .bad ∉ v.tokens) :
    v.Rereads constant := by
  refine rereads_of_eq h hreread ?_ hbad
  unfold Value.Legible
  rw [hfloats]
  exact fun _ hx => absurd hx List.not_mem_nil

theorem legible_float {x : Binary64} : (Value.float x).Legible ↔ x.Legible := by
  unfold Value.Legible
  rw [Value.floats, List.forall_mem_singleton]

theorem not_bad_single {t : Token} (h : .bad ≠ t) : .bad ∉ [t] := fun hmem =>
  h (List.mem_singleton.1 hmem)

theorem rereads_of_int {constant : Bool} {x : Binary64} {n : Int} (hreread : x.reread = .int n)
    (hlexes : Lexes (plain x).toList [.int n]) (hfits : fitsInt64 n = true)
    (hsame : x.Legible → n.repr = plain x)
    (hshorter : ¬x.Legible → n.repr.length < (plain x).length) :
    (Value.float x).Rereads constant := by
  have hvalue : (Value.float x).reread = .int n := by rw [Value.reread, hreread]
  refine ⟨?_, ?_, ?_, ?_, ?_⟩
  · rw [hvalue]
    exact hlexes
  · rw [hvalue]
    exact not_bad_single Token.noConfusion
  · rw [hvalue]
    exact readable_int hfits
  · rw [hvalue, legible_float]
    exact hsame
  · rw [hvalue, legible_float]
    exact hshorter

theorem rereads_of_repr {constant : Bool} {x : Binary64} {n : Int} (htext : plain x = n.repr)
    (hreread : x.reread = .int n) (hlegible : fitsInt64 n = true ↔ x.Legible) :
    Lexes (plain x).toList [.bad] ∧ ¬x.Legible ∨ (Value.float x).Rereads constant := by
  have hlexes := lexes_repr n
  rw [← htext] at hlexes
  cases hfits : fitsInt64 n with
  | false =>
    rw [hfits] at hlexes hlegible
    exact .inl ⟨hlexes, fun h => Bool.false_ne_true (hlegible.2 h)⟩
  | true =>
    rw [hfits] at hlexes
    refine .inr (rereads_of_int hreread hlexes hfits (fun _ => htext.symm) fun hno => ?_)
    exact absurd (hlegible.1 hfits) hno

section Finite

variable {m : Nat} {e : Int} (negative constant : Bool) (hc : Binary64.Canonical m e) (hm : m ≠ 0)
include hc hm

theorem rereads_whole {k : Nat} (hk : (shortest .up m e).exponent = .ofNat k) :
    Lexes (plain (.finite negative m e)).toList [.bad] ∧
        ¬(Binary64.finite negative m e).Legible ∨
      (Value.float (.finite negative m e)).Rereads constant := by
  have hvalue : (shortest .up m e).toRat = ((shortest .up m e).digits * 10 ^ k : ℕ) := by
    rw [Scientific.toRat, hk, Int.ofNat_eq_natCast, zpow_natCast]
    push_cast
    rfl
  have hreread : (Binary64.finite negative m e).reread =
      .int (signedInt negative ((shortest .up m e).digits * 10 ^ k)) := by
    rw [Binary64.reread, if_neg hm, hk]
  have hbound : ((2 ^ 63 : ℕ) : ℚ) = 2 ^ 63 := by norm_num
  refine rereads_of_repr (plain_of_ofNat negative hc hm hk) hreread ?_
  rw [Binary64.legible_iff hm]
  by_cases hsmall : m * (2 : ℚ) ^ e < 2 ^ 63
  · have hlt := shortest_lt .up hc hm hsmall
    rw [hvalue, ← hbound, Nat.cast_lt] at hlt
    rw [fitsInt64_signedInt negative hlt.ne]
    exact iff_of_true hlt hsmall
  · have hlt := lt_shortest .up hc hm (not_lt.1 hsmall)
    rw [hvalue, ← hbound, Nat.cast_lt] at hlt
    rw [fitsInt64_signedInt negative hlt.ne']
    exact iff_of_false (not_lt.2 hlt.le) hsmall

theorem rereads_fraction {k : Nat} (hk : (shortest .up m e).exponent = .negSucc k) :
    (Value.float (.finite negative m e)).Rereads constant := by
  have hreread : (Value.float (.finite negative m e)).reread = .float (.finite negative m e) := by
    rw [Value.reread, Binary64.reread, if_neg hm, hk]
  have hlexes := lexes_plain_of_negSucc negative hc hm hk
  have hlegible : (Value.float (.finite negative m e)).Legible := by
    rw [legible_float, Binary64.legible_iff hm]
    refine not_le.1 fun hbig => ?_
    have hnonneg := exponent_shortest_nonneg .up hc hbig
    rw [hk] at hnonneg
    exact (Int.negSucc_not_nonneg k).1 hnonneg
  exact rereads_of_eq (readable_float hlexes) hreread hlegible (not_bad_single Token.noConfusion)

end Finite

theorem lexes_sign :
    Lexes ['-', 'i', 'n', 'f'] [.bad] ∧ Lexes ['-', '0'] [.int 0] := by
  have hinfinity : numberToken ['-', 'i', 'n', 'f'] = .bad := by decide
  have hzero : numberToken ['-', '0'] = .int 0 := by decide
  have hletters : ∀ c ∈ ['i', 'n', 'f'], endsNumber c = false :=
    List.forall_mem_cons.2 ⟨rfl, List.forall_mem_cons.2 ⟨rfl, List.forall_mem_singleton.2 rfl⟩⟩
  rw [← hinfinity, ← hzero]
  exact ⟨lexes_number rfl hletters, lexes_number rfl (List.forall_mem_singleton.2 rfl)⟩

theorem legible_zero (negative : Bool) (e : Int) :
    (Binary64.finite negative 0 e).Legible ↔ negative = false := by
  have hnum : (Binary64.ratio 0 e).num = 0 := Nat.zero_mul _
  have hden : 0 < (Binary64.ratio 0 e).den :=
    Nat.mul_pos Nat.one_pos (Binary64.Ratio.positive_power two_pos e).2
  rw [Binary64.Legible, hnum]
  exact ⟨fun h => h.1 rfl, fun h => ⟨fun _ => h, by positivity⟩⟩

theorem rereads_zero (negative constant : Bool) (e : Int) :
    (Value.float (.finite negative 0 e)).Rereads constant := by
  have hreread : (Binary64.finite negative 0 e).reread = .int 0 := by
    rw [Binary64.reread, if_pos rfl]
  have htext : plain (.finite negative 0 e) = signed negative ['0'] := by
    rw [plain, if_pos rfl]
  refine rereads_of_int hreread ?_ rfl ?_ ?_
  · rw [htext]
    cases negative with
    | true => exact lexes_sign.2
    | false => exact lexes_int (n := 0) rfl
  · rw [legible_zero, htext]
    rintro rfl
    rfl
  · rw [legible_zero, htext, Bool.not_eq_false]
    rintro rfl
    decide

theorem rereads_float {x : Binary64} (hx : x.IsCanonical) (constant : Bool) :
    Lexes (plain x).toList [.bad] ∧ ¬x.Legible ∨ (Value.float x).Rereads constant := by
  rcases x with ⟨negative, m, e⟩ | negative
  · by_cases hm : m = 0
    · rw [hm]
      exact .inr (rereads_zero negative constant e)
    · rcases hk : (shortest .up m e).exponent with k | k
      · exact rereads_whole negative constant hx hm hk
      · exact .inr (rereads_fraction negative constant hx hm hk)
  · cases negative with
    | true => exact .inl ⟨lexes_sign.1, fun h => nomatch h⟩
    | false =>
      have hname : Lexes "inf".toList [.name "inf"] := lexes_name (by decide)
      have hlegible : (Value.float (.infinite false)).Legible := legible_float.2 rfl
      refine .inr ⟨hname, ?_, readable_enum (by decide) rfl, fun _ => rfl, fun hno => ?_⟩
      · exact not_bad_single Token.noConfusion
      · exact absurd hlegible hno

inductive Value.Formed (constant : Bool) : Value → Prop
  | var {name : String} (hconstant : constant = false) (hname : isName name.toList = true) :
      Formed constant (.variable name)
  | int {n : Int} (hfits : fitsInt64 n = true) : Formed constant (.int n)
  | float {x : Binary64} (hx : x.IsCanonical) : Formed constant (.float x)
  | text (s : String) : Formed constant (.text s)
  | bool (b : Bool) : Formed constant (.bool b)
  | null : Formed constant .null
  | enum {name : String} (hname : isName name.toList = true)
      (henum : nameValue name = .enum name) : Formed constant (.enum name)
  | list {items : List Value} (hitems : ∀ v ∈ items, Formed constant v) :
      Formed constant (.list items)
  | object {entries : List (String × Value)} (hsorted : Sorted.Ascending entries)
      (hnames : ∀ e ∈ entries, isName e.1.toList = true)
      (hvalues : ∀ e ∈ entries, Formed constant e.2) : Formed constant (.object entries)

theorem length_intercalate (sep : List Char) (xs : List (List Char)) :
    (sep.intercalate xs).length = (xs.map List.length).sum + (xs.length - 1) * sep.length := by
  induction xs with
  | nil => simp
  | cons x xs ih =>
    rcases xs with _ | ⟨y, ys⟩
    · simp
    · rw [List.intercalate_cons_cons, List.length_append, List.length_append, ih]
      simp only [List.map_cons, List.sum_cons, List.length_cons, Nat.add_sub_cancel]
      ring

theorem length_commas_lt {α : Type} {f g : α → String} {xs : List α}
    (h : ∀ x ∈ xs, (f x).length ≤ (g x).length) (hlt : ∃ x ∈ xs, (f x).length < (g x).length) :
    (", ".intercalate (xs.map f)).length < (", ".intercalate (xs.map g)).length := by
  have hsum := List.sum_lt_sum (fun x => (f x).length) (fun x => (g x).length) h hlt
  simpa [← String.length_toList, length_intercalate, Function.comp_def] using hsum

theorem rereads_list {constant : Bool} {items : List Value}
    (h : ∀ v ∈ items, v.Rereads constant) : (Value.list items).Rereads constant := by
  have hrender : ∀ vs : List Value,
      (Value.list vs).render = "[" ++ ", ".intercalate (vs.map Value.render) ++ "]" := by
    intro vs
    rw [Value.render, renderItems_eq_map]
  have htokens : (Value.list items).reread.tokens =
      .punct '[' :: (items.flatMap (·.reread.tokens) ++ [.punct ']']) := by
    rw [reread_list, tokens_list, List.flatMap_map]
  refine ⟨?_, ?_, ?_, ?_, ?_⟩
  · rw [htokens]
    exact lexes_list fun v hv => (h v hv).lexes
  · rw [htokens]
    simpa using fun v hv => (h v hv).notBad
  · rw [reread_list]
    refine readable_list fun w hw => ?_
    obtain ⟨v, hv, rfl⟩ := List.mem_map.1 hw
    exact (h v hv).readable
  · rw [legible_list, reread_list, hrender, hrender, List.map_map]
    intro hlegible
    have hsame := List.map_congr_left fun v hv => (h v hv).same (hlegible v hv)
    rw [← hsame]
    rfl
  · rw [legible_list, reread_list, hrender, hrender, List.map_map]
    intro hno
    simp only [not_forall] at hno
    obtain ⟨v, hv, hvalue⟩ := hno
    have hshorter := length_commas_lt (fun v hv => (h v hv).length_le)
      ⟨v, hv, (h v hv).shorter hvalue⟩
    simpa [Function.comp_def] using hshorter

theorem rereads_object {constant : Bool} {entries : List (String × Value)}
    (hsorted : Sorted.Ascending entries) (hnames : ∀ e ∈ entries, isName e.1.toList = true)
    (h : ∀ e ∈ entries, e.2.Rereads constant) : (Value.object entries).Rereads constant := by
  have hrender : ∀ es : List (String × Value), (Value.object es).render =
      "\x7b" ++ ", ".intercalate (es.map fun e => e.1 ++ ": " ++ e.2.render) ++ "\x7d" := by
    intro es
    rw [Value.render, renderEntries_eq_map]
  have htokens : (Value.object entries).reread.tokens = .punct '\x7b' ::
      (entries.flatMap (fun e => .name e.1 :: .punct ':' :: e.2.reread.tokens) ++
        [.punct '\x7d']) := by
    rw [reread_object, tokens_object, List.flatMap_map]
    rfl
  refine ⟨?_, ?_, ?_, ?_, ?_⟩
  · rw [htokens]
    exact lexes_object (·.reread.tokens) hnames fun e he => (h e he).lexes
  · rw [htokens]
    simpa using fun name v he => (h (name, v) he).notBad
  · rw [reread_object]
    refine readable_object (List.pairwise_map.2 hsorted) ?_ ?_
    all_goals
      intro w hw
      obtain ⟨e, he, rfl⟩ := List.mem_map.1 hw
    · exact hnames e he
    · exact (h e he).readable
  · rw [legible_object, reread_object, hrender, hrender, List.map_map]
    intro hlegible
    have hsame : entries.map (fun e => e.1 ++ ": " ++ e.2.reread.render) =
        entries.map fun e => e.1 ++ ": " ++ e.2.render :=
      List.map_congr_left fun e he => by rw [(h e he).same (hlegible e he)]
    rw [← hsame]
    rfl
  · rw [legible_object, reread_object, hrender, hrender, List.map_map]
    intro hno
    simp only [not_forall] at hno
    obtain ⟨e, he, hvalue⟩ := hno
    have hshorter := length_commas_lt (f := fun e : String × Value =>
      e.1 ++ ": " ++ e.2.reread.render) (g := fun e => e.1 ++ ": " ++ e.2.render)
      (fun e he => by simpa using (h e he).length_le)
      ⟨e, he, by simpa using (h e he).shorter hvalue⟩
    simpa [Function.comp_def] using hshorter

def Value.Spoiled (v : Value) : Prop :=
  ∃ ts, Lexes v.render.toList ts ∧ .bad ∈ ts ∧ ¬v.Legible

theorem separable_of_or {constant : Bool} {v : Value} (h : v.Spoiled ∨ v.Rereads constant) :
    Separable v.render := by
  rcases h with ⟨_, hlexes, -⟩ | h
  · exact hlexes.separable
  · exact h.lexes.separable

theorem Value.Spoiled.bad_mem {v : Value} (h : v.Spoiled) : .bad ∈ Sdl.tokens v.render.toList := by
  obtain ⟨ts, hlexes, hbad, -⟩ := h
  rwa [hlexes.tokens_eq]

theorem Value.Spoiled.not_legible {v : Value} (h : v.Spoiled) : ¬v.Legible := by
  obtain ⟨-, -, -, hno⟩ := h
  exact hno

theorem Value.Formed.rereads_or {constant : Bool} {v : Value} (h : v.Formed constant) :
    v.Spoiled ∨ v.Rereads constant := by
  induction h with
  | var hconstant hname =>
    exact .inr (rereads_of_floats_eq_nil (readable_variable hconstant hname) rfl rfl
      (by simp [Value.tokens]))
  | int hfits =>
    exact .inr (rereads_of_floats_eq_nil (readable_int hfits) rfl rfl (by simp [Value.tokens]))
  | float hx =>
    rcases rereads_float hx constant with ⟨hlexes, hno⟩ | hrereads
    · exact .inl ⟨_, hlexes, List.mem_singleton_self _, mt legible_float.1 hno⟩
    · exact .inr hrereads
  | text s =>
    exact .inr (rereads_of_floats_eq_nil (readable_text s) rfl rfl (by simp [Value.tokens]))
  | bool b =>
    refine .inr (rereads_of_floats_eq_nil (readable_bool b) rfl rfl ?_)
    cases b <;> simp [Value.tokens]
  | null => exact .inr (rereads_of_floats_eq_nil readable_null rfl rfl (by simp [Value.tokens]))
  | enum hname henum =>
    exact .inr (rereads_of_floats_eq_nil (readable_enum hname henum) rfl rfl
      (by simp [Value.tokens]))
  | @list items _ ih =>
    -- If one item is not read again its text holds a bad token, and so does the list's.
    by_cases hall : ∀ v ∈ items, v.Rereads constant
    · exact .inr (rereads_list hall)
    · simp only [not_forall] at hall
      obtain ⟨v, hv, hno⟩ := hall
      have hspoiled := (ih v hv).resolve_right hno
      refine .inl ⟨_, lexes_list fun w hw => separable_of_or (ih w hw), ?_, fun h => ?_⟩
      · simpa using ⟨v, hv, hspoiled.bad_mem⟩
      · exact hspoiled.not_legible (legible_list.1 h v hv)
  | @object entries hsorted hnames _ ih =>
    by_cases hall : ∀ e ∈ entries, e.2.Rereads constant
    · exact .inr (rereads_object hsorted hnames hall)
    · simp only [not_forall] at hall
      obtain ⟨e, he, hno⟩ := hall
      have hspoiled := (ih e he).resolve_right hno
      have hlexes := lexes_object (fun v => Sdl.tokens v.render.toList) hnames fun e he =>
        separable_of_or (ih e he)
      refine .inl ⟨_, hlexes, ?_, fun h => ?_⟩
      · simpa using ⟨e.1, e.2, he, hspoiled.bad_mem⟩
      · exact hspoiled.not_legible (legible_object.1 h e he)

section Formed

variable {constant : Bool} {v : Value} (h : v.Formed constant)
include h

theorem Value.Formed.separable : Separable v.render := separable_of_or h.rereads_or

theorem Value.Formed.rereads (hbad : .bad ∉ Sdl.tokens v.render.toList) : v.Rereads constant :=
  h.rereads_or.resolve_left fun hspoiled => hbad hspoiled.bad_mem

theorem Value.Formed.not_bad (hlegible : v.Legible) : .bad ∉ Sdl.tokens v.render.toList := by
  have hrereads := h.rereads_or.resolve_left fun hspoiled => hspoiled.not_legible hlegible
  rw [hrereads.lexes.tokens_eq]
  exact hrereads.notBad

end Formed

end Sdl

end SchemaGraph
