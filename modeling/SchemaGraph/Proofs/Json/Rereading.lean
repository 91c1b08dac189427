import SchemaGraph.Json.Printer
import SchemaGraph.Json.Reader

/-! Values without numbers are read back from their compact text, whatever follows it. -/

namespace SchemaGraph.Json

/-! Texts -/

theorem hexValue?_hexDigit (n : Nat) : hexValue? (hexDigit n) = some (n % 16) := by
  have hall : ∀ d < 16, hexValue? (Nat.digitChar d) = some d := by decide
  exact hall (n % 16) (Nat.mod_lt n (by decide))

variable {strict : Bool}

theorem unicodeEscape_control {c : Char} (h : c.toNat < 0x20) (r : List Char) :
    unicodeEscape strict ('0' :: '0' :: hexDigit (c.toNat / 16) :: hexDigit c.toNat :: r) =
      .ok (some c, r) := by
  have hzero : hexValue? '0' = some 0 := rfl
  have hvalue : ((0 * 16 + 0) * 16 + c.toNat / 16 % 16) * 16 + c.toNat % 16 = c.toNat := by
    omega
  have hlow : isLowSurrogate c.toNat = false := by
    simp only [isLowSurrogate, Bool.and_eq_false_iff, decide_eq_false_iff_not]
    omega
  have hhigh : isHighSurrogate c.toNat = false := by
    simp only [isHighSurrogate, Bool.and_eq_false_iff, decide_eq_false_iff_not]
    omega
  simp only [unicodeEscape, hexFour, hzero, hexValue?_hexDigit, hvalue, hlow, hhigh,
    Char.ofNat_toNat]
  rfl

def shortEscaped : List Char := ['"', '\\', '\n', '\r', '\t', '\x08', '\x0c']

theorem escapeChar_of_mem {c : Char} (h : c ∈ shortEscaped) :
    ∃ d, escapeChar c = ['\\', d] ∧ d ≠ 'u' ∧ shortEscape? d = some c := by
  simp only [shortEscaped, List.mem_cons, List.not_mem_nil, or_false] at h
  rcases h with rfl | rfl | rfl | rfl | rfl | rfl | rfl <;> exact ⟨_, rfl, by decide, rfl⟩

theorem escapeChar_of_not_mem {c : Char} (h : c ∉ shortEscaped) :
    escapeChar c = if c.toNat < 0x20 then
        ['\\', 'u', '0', '0', hexDigit (c.toNat / 16), hexDigit c.toNat]
      else [c] := by
  simp only [shortEscaped, List.mem_cons, List.not_mem_nil, or_false, not_or] at h
  simp only [escapeChar, h, if_false]

theorem textBody_escaped {d : Option Char} {r rest : List Char}
    (h : escaped strict r = .ok (d, rest)) : textBody strict ('\\' :: r) =
      (textBody strict rest).map fun x => (textBody.prepend d x.1, x.2) := by
  rw [textBody, if_neg (by decide), if_pos rfl]
  split
  · simp_all
  · rename_i hread
    rw [h] at hread
    cases hread
    rfl

theorem textBody_escapeChar (c : Char) (r : List Char) :
    textBody strict (escapeChar c ++ r) =
      (textBody strict r).map fun x => (textBody.prepend (some c) x.1, x.2) := by
  by_cases hc : c ∈ shortEscaped
  · obtain ⟨d, heq, hu, hd⟩ := escapeChar_of_mem hc
    rw [heq]
    exact textBody_escaped (by simp [escaped, hu, hd])
  rw [escapeChar_of_not_mem hc]
  split
  · rename_i hcontrol
    exact textBody_escaped (by simp [escaped, unicodeEscape_control hcontrol])
  · rename_i hcontrol
    simp only [shortEscaped, List.mem_cons, not_or] at hc
    rw [List.singleton_append, textBody, if_neg hc.1, if_neg hc.2.1, if_neg hcontrol]

theorem textBody_escape (cs rest : List Char) :
    textBody strict (cs.flatMap escapeChar ++ '"' :: rest) = .ok (some cs, rest) := by
  induction cs with
  | nil => rw [List.flatMap_nil, List.nil_append, textBody, if_pos rfl]
  | cons c cs ih =>
    rw [List.flatMap_cons, List.append_assoc, textBody_escapeChar, ih]
    rfl

theorem text_quoted (s : String) (rest : List Char) :
    text strict ((quoted s).drop 1 ++ rest) = .ok (some s, rest) := by
  have hsplit : (quoted s).drop 1 ++ rest = s.toList.flatMap escapeChar ++ '"' :: rest := by
    simp [quoted]
  rw [text, hsplit, textBody_escape]
  simp [Except.map]

/-! Items between commas -/

section Items

variable {α β : Type} (chars : α → List Char)

def commas (xs : List α) : List Char := xs.flatMap fun x => ',' :: chars x

variable {xs : List α}

theorem length_lt_commas {x : α} (hx : x ∈ xs) :
    (chars x).length < (commas chars xs).length := by
  induction xs with
  | nil => cases hx
  | cons y ys ih =>
    simp only [commas, List.flatMap_cons, List.length_append, List.length_cons] at ih ⊢
    rcases List.mem_cons.1 hx with rfl | hx
    · omega
    · have := ih hx
      omega

theorem length_le_commas (xs : List α) : xs.length ≤ (commas chars xs).length := by
  induction xs with
  | nil => exact Nat.zero_le _
  | cons y ys ih =>
    simp only [commas, List.flatMap_cons, List.length_append, List.length_cons] at ih ⊢
    omega

variable {chars} {turn : Bool → List Char → Except Fault Turn} {item : Reading β} {value : α → β}
  {close : Char} (hclose : ∀ first r, turn first (close :: r) = .ok (.done r))
  (hmore : ∀ x ∈ xs, ∀ r, turn false (',' :: (chars x ++ r)) = .ok (.item (chars x ++ r)))
  (hitem : ∀ x ∈ xs, ∀ r, item (chars x ++ r) = .ok (value x, r))
include hclose hmore hitem

theorem items_commas {room : Nat} (hroom : xs.length < room) (rest : List Char) :
    items turn item room false (commas chars xs ++ close :: rest) = .ok (xs.map value, rest) := by
  induction xs generalizing room with
  | nil =>
    obtain ⟨room, rfl⟩ := Nat.exists_eq_succ_of_ne_zero (Nat.ne_zero_of_lt hroom)
    simp only [commas, List.flatMap_nil, List.nil_append, items, hclose]
    rfl
  | cons x xs ih =>
    obtain ⟨room, rfl⟩ := Nat.exists_eq_succ_of_ne_zero (Nat.ne_zero_of_lt hroom)
    rw [List.forall_mem_cons] at hmore hitem
    have hrest := ih hmore.2 hitem.2 (Nat.lt_of_succ_lt_succ hroom)
    have hsplit : commas chars (x :: xs) ++ close :: rest =
        ',' :: (chars x ++ (commas chars xs ++ close :: rest)) := by
      simp [commas]
    rw [hsplit, items, hmore.1]
    simp only [hitem.1, hrest]
    rfl

theorem items_drop_commas
    (hfirst : ∀ x ∈ xs, ∀ r, turn true (chars x ++ r) = .ok (.item (chars x ++ r)))
    {room : Nat} (hroom : xs.length < room) (rest : List Char) :
    items turn item room true ((commas chars xs).drop 1 ++ close :: rest) =
      .ok (xs.map value, rest) := by
  obtain ⟨room, rfl⟩ := Nat.exists_eq_succ_of_ne_zero (Nat.ne_zero_of_lt hroom)
  cases xs with
  | nil =>
    simp only [commas, List.flatMap_nil, List.drop_nil, List.nil_append, items, hclose]
    rfl
  | cons x xs =>
    rw [List.forall_mem_cons] at hmore hitem
    have hrest := items_commas hclose hmore.2 hitem.2 (Nat.lt_of_succ_lt_succ hroom) rest
    have hsplit : (commas chars (x :: xs)).drop 1 ++ close :: rest =
        chars x ++ (commas chars xs ++ close :: rest) := by
      simp [commas]
    rw [hsplit, items, hfirst x List.mem_cons_self]
    simp only [hitem.1, hrest]
    rfl

end Items

/-! Values -/

def memberChars (m : String × Json) : List Char := quoted m.1 ++ ':' :: compactChars m.2

theorem compactItems_eq (js : List Json) : compactItems js = commas compactChars js ++ [']'] := by
  induction js with
  | nil => rfl
  | cons j js ih =>
    rw [compactItems, ih]
    simp [commas]

theorem compactMembers_eq (ms : List (String × Json)) :
    compactMembers ms = commas memberChars ms ++ ['\x7d'] := by
  induction ms with
  | nil => rfl
  | cons m ms ih =>
    rw [compactMembers, ih]
    simp [commas, memberChars]

theorem compactChars_array (js : List Json) :
    compactChars (.array js) = '[' :: ((commas compactChars js).drop 1 ++ [']']) := by
  cases js with
  | nil => rfl
  | cons j js =>
    rw [compactChars, compactItems_eq]
    simp [commas]

theorem compactChars_object (ms : List (String × Json)) :
    compactChars (.object ms) = '\x7b' :: ((commas memberChars ms).drop 1 ++ ['\x7d']) := by
  cases ms with
  | nil => rfl
  | cons m ms =>
    rw [compactChars, compactMembers_eq]
    simp [commas, memberChars]

/-- Values without numbers, with at most so many brackets around any part of them. -/
inductive Plain : Nat → Json → Prop where
  | null {n : Nat} : Plain n .null
  | bool {n : Nat} (b : Bool) : Plain n (.bool b)
  | string {n : Nat} (s : String) : Plain n (.string s)
  | array {n : Nat} {items : List Json} (hitems : ∀ j ∈ items, Plain n j) :
      Plain (n + 1) (.array items)
  | object {n : Nat} {members : List (String × Json)} (hmembers : ∀ m ∈ members, Plain n m.2) :
      Plain (n + 1) (.object members)

theorem Plain.exists_compactChars {n : Nat} {j : Json} (h : Plain n j) :
    ∃ c cs, compactChars j = c :: cs ∧ isSpace c = false ∧ c ≠ ']' := by
  cases h with
  | null => exact ⟨_, _, rfl, by decide, by decide⟩
  | bool b => cases b <;> exact ⟨_, _, rfl, by decide, by decide⟩
  | string s => exact ⟨_, _, rfl, by decide, by decide⟩
  | array => exact ⟨_, _, compactChars_array _, by decide, by decide⟩
  | object => exact ⟨_, _, compactChars_object _, by decide, by decide⟩

theorem skipSpace_cons {c : Char} (h : isSpace c = false) (r : List Char) :
    skipSpace (c :: r) = c :: r := by
  simp [skipSpace, h]

theorem listTurn_close (first : Bool) (r : List Char) :
    listTurn first (']' :: r) = .ok (.done r) := rfl

theorem Plain.listTurn_first {n : Nat} {j : Json} (h : Plain n j) (r : List Char) :
    listTurn true (compactChars j ++ r) = .ok (.item (compactChars j ++ r)) := by
  obtain ⟨c, cs, heq, hspace, hclose⟩ := h.exists_compactChars
  simp [heq, listTurn, skipSpace_cons hspace, hclose]

theorem Plain.listTurn_comma {n : Nat} {j : Json} (h : Plain n j) (r : List Char) :
    listTurn false (',' :: (compactChars j ++ r)) = .ok (.item (compactChars j ++ r)) := by
  obtain ⟨c, cs, heq, hspace, hclose⟩ := h.exists_compactChars
  have hcomma : isSpace ',' = false := rfl
  simp [heq, listTurn, skipSpace_cons hcomma, skipSpace_cons hspace, hclose]

theorem objectTurn_close (first : Bool) (r : List Char) :
    objectTurn first ('\x7d' :: r) = .ok (.done r) := rfl

theorem objectTurn_first (m : String × Json) (r : List Char) :
    objectTurn true (memberChars m ++ r) = .ok (.item (memberChars m ++ r)) := rfl

theorem objectTurn_comma (m : String × Json) (r : List Char) :
    objectTurn false (',' :: (memberChars m ++ r)) = .ok (.item (memberChars m ++ r)) := rfl

theorem member_memberChars {value : Reading Json} {m : String × Json} {rest : List Char}
    (h : value (compactChars m.2 ++ rest) = .ok (m.2, rest)) :
    member strict value (memberChars m ++ rest) = .ok ((some m.1, m.2), rest) := by
  have hsplit : (memberChars m ++ rest).drop 1 =
      (quoted m.1).drop 1 ++ ':' :: (compactChars m.2 ++ rest) := by
    simp [memberChars, quoted]
  have hcolon : isSpace ':' = false := rfl
  simp only [member, hsplit, text_quoted, skipSpace_cons hcolon, if_true, h]
  rfl

theorem objectOf_named (ms : List (String × Json)) :
    objectOf (ms.map fun m => (some m.1, m.2)) = .object ms := by
  have hmap : (ms.map fun m => (some m.1, m.2)).mapM
      (fun m : Option String × Json => m.1.map fun name => (name, m.2)) = some ms := by
    induction ms with
    | nil => rfl
    | cons m ms ih => simp [List.mapM_cons, ih]
  rw [objectOf, hmap]

theorem limited_of_lt {depth : Nat} (h : depth < nestingLimit) (j : Json) :
    limited depth j = j :=
  if_pos h

section Value

variable {room depth : Nat} (r : List Char)

theorem value_mark : value false (room + 1) depth ('"' :: r) =
    (text false r).map fun x => ((x.1.map Json.string).getD .unreadable, x.2) := rfl

theorem value_bracket : value false (room + 1) depth ('[' :: r) =
    (items listTurn (value false room (depth + 1)) (room + 1) true r).map
      fun x => (limited depth (.array x.1), x.2) := rfl

theorem value_brace : value false (room + 1) depth ('\x7b' :: r) =
    (items objectTurn (member false (value false room (depth + 1))) (room + 1) true r).map
      fun x => (limited depth (objectOf x.1), x.2) := rfl

end Value

theorem length_enclosed {α : Type} (chars : α → List Char) (xs : List α) (left right : Char) :
    (left :: ((commas chars xs).drop 1 ++ [right])).length = (commas chars xs).length - 1 + 2 := by
  simp

/-- There is room for the value if there is for its characters, and nothing in it is lost if the
brackets around it and in it are not too many. -/
theorem Plain.value_compactChars {n : Nat} {j : Json} (h : Plain n j) {room depth : Nat}
    (hdepth : depth + n ≤ nestingLimit) (hroom : (compactChars j).length < room)
    (rest : List Char) : value false room depth (compactChars j ++ rest) = .ok (j, rest) := by
  induction h generalizing room depth rest <;>
    obtain ⟨room, rfl⟩ := Nat.exists_eq_succ_of_ne_zero (Nat.ne_zero_of_lt hroom)
  case null => rfl
  case bool b => cases b <;> rfl
  case string s =>
    have hquoted : compactChars (.string s) = '"' :: (quoted s).drop 1 := rfl
    rw [hquoted, List.cons_append, value_mark, text_quoted]
    rfl
  case array n js hitems ih =>
    rw [compactChars_array, length_enclosed] at hroom
    have hcount := length_le_commas compactChars js
    -- An item is shorter than all of them with their commas, which fit into the room.
    have hvalue : ∀ j ∈ js, ∀ r,
        value false room (depth + 1) (compactChars j ++ r) = .ok (j, r) := by
      intro j hj r
      have hshort := length_lt_commas compactChars hj
      exact ih j hj (by omega) (by omega) r
    rw [compactChars_array, List.cons_append, List.append_assoc, List.singleton_append,
      value_bracket, items_drop_commas listTurn_close (fun j hj => (hitems j hj).listTurn_comma)
        hvalue (fun j hj => (hitems j hj).listTurn_first) (by omega), List.map_id']
    exact congrArg (fun j => Except.ok (j, rest)) (limited_of_lt (by omega) _)
  case object n ms hmembers ih =>
    rw [compactChars_object, length_enclosed] at hroom
    have hcount := length_le_commas memberChars ms
    have hmember : ∀ m ∈ ms, ∀ r, member false (value false room (depth + 1))
        (memberChars m ++ r) = .ok ((some m.1, m.2), r) := by
      intro m hm r
      have hshort := length_lt_commas memberChars hm
      have hlength : (compactChars m.2).length ≤ (memberChars m).length := by
        simp [memberChars]
        omega
      exact member_memberChars (ih m hm (by omega) (by omega) r)
    rw [compactChars_object, List.cons_append, List.append_assoc, List.singleton_append,
      value_brace, items_drop_commas objectTurn_close (fun m _ => objectTurn_comma m) hmember
        (fun m _ => objectTurn_first m) (by omega)]
    have hkept := limited_of_lt (by omega : depth < nestingLimit) (.object ms)
    rw [← objectOf_named ms] at hkept ⊢
    exact congrArg (fun j => Except.ok (j, rest)) hkept

theorem Plain.parseLenient?_compact {n : Nat} {j : Json} (h : Plain n j) (hn : n ≤ nestingLimit) :
    parseLenient? j.compact = some j := by
  have hread : value false ((compactChars j).length + 1) 0 (compactChars j ++ []) =
      .ok (j, []) := h.value_compactChars (by omega) (by omega) []
  rw [List.append_nil] at hread
  rw [parseLenient?, compact, String.toList_ofList, read, hread]
  rfl

end SchemaGraph.Json
