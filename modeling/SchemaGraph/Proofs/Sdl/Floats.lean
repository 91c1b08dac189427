import SchemaGraph.Decimal.Layout
import SchemaGraph.Proofs.Decimal.Shortest
import SchemaGraph.Proofs.Sdl.Integers

/-! Floating-point numbers without an exponent. With a point they are read back as the numbers they
stand for; without one they are integers, if integers go that far. -/

namespace SchemaGraph.Sdl

open Decimal

/-! A point splits a number -/

theorem splitLast_eq_none {p : Char → Bool} {cs : List Char} (h : ∀ c ∈ cs, p c = false) :
    splitLast p cs = none := by
  have hall : ∀ c ∈ cs.reverse, (!p c) = true := by
    intro c hc
    rw [h c (List.mem_reverse.1 hc)]
    rfl
  unfold splitLast
  rw [← List.append_nil cs.reverse, List.span_eq_takeWhile_dropWhile,
    List.dropWhile_append_of_pos hall]
  rfl

theorem splitLast_append {p : Char → Bool} {c : Char} (hc : p c = true) (before : List Char)
    {after : List Char} (h : ∀ d ∈ after, p d = false) :
    splitLast p (before ++ c :: after) = some (before, after) := by
  have hall : ∀ d ∈ after.reverse, (!p d) = true := by
    intro d hd
    rw [h d (List.mem_reverse.1 hd)]
    rfl
  have hreverse : (before ++ c :: after).reverse = after.reverse ++ c :: before.reverse := by simp
  unfold splitLast
  rw [hreverse, List.span_eq_takeWhile_dropWhile, List.takeWhile_append_of_pos hall,
    List.dropWhile_append_of_pos hall]
  simp [hc]

theorem isDigit_spec {c : Char} (h : c.isDigit = true) :
    isNumberStart c = true ∧ c ≠ '.' ∧ isExponentMark c = false := by
  have hstart : isNumberStart c = true := by rw [isNumberStart, h, Bool.or_true]
  exact ⟨hstart, (not_mem_stops_of_isNumberStart hstart).2⟩

def signChars (negative : Bool) : List Char := if negative then ['-'] else []

section Decimal

variable {whole fraction : List Char} (negative : Bool)
  (hunsigned : isWhole.isUnsigned whole = true) (hwhole : ∀ c ∈ whole, c.isDigit = true)
  (hne : fraction ≠ []) (hfraction : ∀ c ∈ fraction, c.isDigit = true)
include hunsigned hwhole hne hfraction

omit hunsigned hne in
theorem isNumberStart_of_mem {c : Char} (hc : c ∈ signChars negative ++ whole ++ fraction) :
    isNumberStart c = true := by
  rw [List.append_assoc, List.mem_append, List.mem_append] at hc
  rcases hc with hc | hc | hc
  · cases negative with
    | true =>
      obtain rfl := List.mem_singleton.1 hc
      rfl
    | false => cases hc
  · exact (isDigit_spec (hwhole c hc)).1
  · exact (isDigit_spec (hfraction c hc)).1

theorem decimal_signed : decimal? (signChars negative ++ whole) (some fraction) none =
    some (Binary64.ofDecimal negative (natOf (whole ++ fraction)) (-(fraction.length : Int))) := by
  have hsign := (unsigned_of_isDigit hwhole).1
  have hhead : whole.head? ≠ some '-' := by
    intro hhead
    exact absurd (hwhole '-' (List.mem_of_mem_head? hhead)) (by decide)
  have hdigits : whole.filter Char.isDigit = whole := List.filter_eq_self.2 hwhole
  have hall : isDigits fraction = true := List.all_eq_true.2 hfraction
  have hsome : fraction.isEmpty = false := by simpa using hne
  have hwhole' : isWhole (signChars negative ++ whole) = true := by
    cases negative with
    | true => exact hunsigned
    | false => exact hsign.trans hunsigned
  have hexponent : intOf [] - (fraction.length : Int) = -(fraction.length : Int) := by
    show ((natOf [] : Nat) : Int) - _ = _
    rw [natOf, Nat.ofDigitChars_nil]
    omega
  rw [decimal?, if_pos ⟨hwhole', by simp [hall, hsome], rfl⟩, floatOf, Option.getD_some,
    Option.getD_none, hexponent]
  cases negative with
  | true => simp [signChars, hdigits]
  | false => simp [signChars, hdigits, hhead]

theorem numberToken_decimal : numberToken (signChars negative ++ whole ++ '.' :: fraction) =
    .float (.ofDecimal negative (natOf (whole ++ fraction)) (-(fraction.length : Int))) := by
  have hplain : ∀ c ∈ signChars negative ++ whole ++ fraction,
      c ≠ '.' ∧ isExponentMark c = false := by
    intro c hc
    exact (not_mem_stops_of_isNumberStart (isNumberStart_of_mem negative hwhole hfraction hc)).2
  have hmark : splitLast isExponentMark (signChars negative ++ whole ++ '.' :: fraction) =
      none := by
    refine splitLast_eq_none fun c hc => ?_
    rw [List.mem_append, List.mem_cons] at hc
    rcases hc with hc | rfl | hc
    · exact (hplain c (List.mem_append_left _ hc)).2
    · rfl
    · exact (hplain c (List.mem_append_right _ hc)).2
  have hpoint : splitLast (· = '.') (signChars negative ++ whole ++ '.' :: fraction) =
      some (signChars negative ++ whole, fraction) :=
    splitLast_append rfl _ fun c hc =>
      decide_eq_false (hplain c (List.mem_append_right _ hc)).1
  -- There is no exponent, and the only point is the last.
  unfold numberToken
  rw [if_pos (by simp), hmark, hpoint]
  simp only [decimal_signed negative hunsigned hwhole hne hfraction]

theorem lexes_decimal : Lexes (signChars negative ++ whole ++ '.' :: fraction)
    [.float (.ofDecimal negative (natOf (whole ++ fraction)) (-(fraction.length : Int)))] := by
  have hstart : ∀ c ∈ signChars negative ++ whole ++ fraction, isNumberStart c = true :=
    fun c hc => isNumberStart_of_mem negative hwhole hfraction hc
  have htoken := numberToken_decimal negative hunsigned hwhole hne hfraction
  rcases hcons : signChars negative ++ whole with _ | ⟨c, cs⟩
  · rw [List.append_eq_nil_iff] at hcons
    rw [hcons.2] at hunsigned
    cases hunsigned
  · rw [hcons] at hstart htoken
    rw [← htoken]
    refine lexes_number (hstart c List.mem_cons_self) fun d hd => ?_
    have hd : d ∈ cs ++ '.' :: fraction := hd
    rw [List.mem_append, List.mem_cons] at hd
    rcases hd with hd | rfl | hd
    · refine endsNumber_of_isNumberStart (hstart d (List.mem_cons_of_mem _ ?_))
      exact List.mem_append_left _ hd
    · rfl
    · refine endsNumber_of_isNumberStart (hstart d (List.mem_cons_of_mem _ ?_))
      exact List.mem_append_right _ hd

end Decimal

/-! Layouts without an exponent -/

theorem toDigits_append_zeros {n : Nat} (hn : n ≠ 0) (k : Nat) :
    Nat.toDigits 10 n ++ zeros k = Nat.toDigits 10 (n * 10 ^ k) := by
  induction k with
  | zero => simp [zeros]
  | succ k ih =>
    have hpos : 0 < n * 10 ^ k := Nat.mul_pos (Nat.pos_of_ne_zero hn) (Nat.pow_pos (by decide))
    have hnext : 10 * (n * 10 ^ k) + 0 = n * 10 ^ (k + 1) := by ring
    rw [← hnext, ← Nat.toDigits_append_toDigits (by decide) hpos (by decide), ← ih,
      Nat.toDigits_zero, List.append_assoc, zeros, zeros, List.replicate_succ']

theorem natOf_append (as bs : List Char) :
    natOf (as ++ bs) = natOf as * 10 ^ bs.length + natOf bs := by
  have happend : natOf (as ++ bs) = Nat.ofDigitChars 10 bs (natOf as) := by
    simp only [natOf, Nat.ofDigitChars_eq_foldl, List.foldl_append]
  rw [happend, Nat.ofDigitChars_eq_ofDigitChars_zero, mul_comm]
  rfl

theorem natOf_zeros (n : Nat) : natOf (zeros n) = 0 := by
  rw [natOf, zeros, Nat.ofDigitChars_replicate_zero, mul_zero]

theorem isUnsigned_take {n k : Nat} (hn : n ≠ 0) (hk : 0 < k) :
    isWhole.isUnsigned ((Nat.toDigits 10 n).take k) = true := by
  obtain ⟨-, -, hdigits⟩ := toDigits_spec n
  have hhead := mt (head?_toDigits_eq_zero_iff n).1 hn
  obtain ⟨c, cs, hcons⟩ : ∃ c cs, Nat.toDigits 10 n = c :: cs :=
    List.exists_cons_of_ne_nil Nat.toDigits_ne_nil
  obtain ⟨k, rfl⟩ : ∃ j, k = j + 1 := ⟨k - 1, by omega⟩
  rw [hcons] at hhead hdigits ⊢
  rw [List.take_succ_cons]
  refine isUnsigned_of_ne_zero (by simpa using hhead) fun d hd => hdigits d ?_
  rw [← List.take_succ_cons] at hd
  exact List.mem_of_mem_take hd

theorem positional_eq_append {d : Scientific} (hd : d.digits ≠ 0) {e : Nat}
    (he : d.exponent = .negSucc e) : ∃ whole fraction,
      positional [] d = whole ++ '.' :: fraction ∧ isWhole.isUnsigned whole = true ∧
      (∀ c ∈ whole ++ fraction, c.isDigit = true) ∧ natOf (whole ++ fraction) = d.digits ∧
      fraction.length = e + 1 := by
  obtain ⟨-, hnat, hdigits⟩ := toDigits_spec d.digits
  unfold positional
  simp only [he]
  split
  · rename_i hlt
    refine ⟨_, _, rfl, isUnsigned_take hd (by omega), ?_, ?_, ?_⟩
    · rwa [List.take_append_drop]
    · rwa [List.take_append_drop]
    · rw [List.length_drop]
      omega
  · rename_i hle
    refine ⟨['0'], _, rfl, rfl, ?_, ?_, ?_⟩
    · intro c hc
      rw [List.mem_append, List.mem_append] at hc
      rcases hc with hc | hc | hc
      · obtain rfl := List.mem_singleton.1 hc
        rfl
      · obtain rfl := List.eq_of_mem_replicate hc
        rfl
      · exact hdigits c hc
    · have hzero : natOf ['0'] = 0 := rfl
      rw [natOf_append, natOf_append, natOf_zeros, hnat, hzero, zero_mul, zero_mul, zero_add,
        zero_add]
    · rw [List.length_append, zeros, List.length_replicate]
      omega

theorem toList_signed (negative : Bool) (cs : List Char) :
    (signed negative cs).toList = signChars negative ++ cs := by
  cases negative <;> simp [signed, signChars]

def signedInt (negative : Bool) (n : Nat) : Int := if negative then -n else n

theorem repr_signedInt (negative : Bool) {n : Nat} (hn : n ≠ 0) :
    signed negative (Nat.toDigits 10 n) = (signedInt negative n).repr := by
  obtain ⟨n, rfl⟩ := Nat.exists_eq_succ_of_ne_zero hn
  refine String.toList_inj.1 ?_
  cases negative with
  | true =>
    have hrepr : (signedInt true (n + 1)).repr = "-" ++ (n + 1).repr := rfl
    rw [toList_signed, hrepr, String.toList_append, Nat.toList_repr]
    rfl
  | false =>
    have hrepr : (signedInt false (n + 1)).repr = (n + 1).repr := rfl
    rw [toList_signed, hrepr, Nat.toList_repr]
    rfl

section Finite

variable {m : Nat} {e : Int} (negative : Bool)

theorem plain_finite (hm : m ≠ 0) :
    plain (.finite negative m e) = signed negative (positional [] (shortest .up m e)) := by
  rw [plain, if_neg hm]

variable (hc : Binary64.Canonical m e) (hm : m ≠ 0) {k : Nat}
include hc hm

theorem lexes_plain_of_negSucc (hk : (shortest .up m e).exponent = .negSucc k) :
    Lexes (plain (.finite negative m e)).toList [.float (.finite negative m e)] := by
  obtain ⟨whole, fraction, htext, hunsigned, hdigits, hnat, hlength⟩ :=
    positional_eq_append (digits_shortest_ne_zero .up hc hm) hk
  have hne : fraction ≠ [] := List.ne_nil_of_length_eq_add_one hlength
  have hexponent : (shortest .up m e).exponent = -(fraction.length : Int) := by
    rw [hk, hlength]
    rfl
  have hlexes := lexes_decimal negative hunsigned
    (fun c hc => hdigits c (List.mem_append_left _ hc)) hne
    fun c hc => hdigits c (List.mem_append_right _ hc)
  rw [hnat, ← hexponent, ofDecimal_shortest .up hc hm] at hlexes
  rwa [plain_finite negative hm, toList_signed, htext, ← List.append_assoc]

theorem plain_of_ofNat (hk : (shortest .up m e).exponent = .ofNat k) :
    plain (.finite negative m e) =
      (signedInt negative ((shortest .up m e).digits * 10 ^ k)).repr := by
  have hdigits := digits_shortest_ne_zero .up hc hm
  have htext : positional [] (shortest .up m e) =
      Nat.toDigits 10 ((shortest .up m e).digits * 10 ^ k) := by
    rw [← toDigits_append_zeros hdigits]
    unfold positional
    rw [hk]
    exact List.append_nil _
  rw [plain_finite negative hm, htext, repr_signedInt negative (by positivity)]

end Finite

theorem fitsInt64_signedInt (negative : Bool) {n : Nat} (hn : n ≠ 2 ^ 63) :
    fitsInt64 (signedInt negative n) = true ↔ n < 2 ^ 63 := by
  cases negative
  all_goals
    simp only [fitsInt64, signedInt, Bool.and_eq_true, decide_eq_true_eq, if_true,
      Bool.false_eq_true, if_false]
    omega

end SchemaGraph.Sdl
