import SchemaGraph.Sdl.Token

/-! How deep brackets are nested in a list of tokens. -/

namespace SchemaGraph.Sdl

def openAfter (n : Nat) : Token → Nat
  | .punct c =>
    if c = '(' ∨ c = '[' ∨ c = '\x7b' then n + 1
    else if c = ')' ∨ c = ']' ∨ c = '\x7d' then n - 1
    else n
  | _ => n

def deepest (n : Nat) : List Token → Nat
  | [] => n
  | t :: ts => max n (deepest (openAfter n t) ts)

def nesting (ts : List Token) : Nat := deepest 0 ts

theorem le_deepest (n : Nat) (ts : List Token) : n ≤ deepest n ts := by
  cases ts with
  | nil => exact Nat.le_refl n
  | cons t ts => exact Nat.le_max_left _ _

theorem openAfter_le (n : Nat) (t : Token) : openAfter n t ≤ n + 1 := by
  cases t with
  | punct c =>
    simp only [openAfter]
    split
    · exact Nat.le_refl _
    · split <;> omega
  | _ => exact Nat.le_succ n

theorem deepest_le (n : Nat) (ts : List Token) : deepest n ts ≤ n + ts.length := by
  induction ts generalizing n with
  | nil => exact Nat.le_refl n
  | cons t ts ih =>
    have hopen := openAfter_le n t
    have hrest := ih (openAfter n t)
    rw [deepest, List.length_cons]
    omega

theorem nesting_le_length (ts : List Token) : nesting ts ≤ ts.length := by
  simpa [nesting] using deepest_le 0 ts

def Bracketed (ts : List Token) : Prop :=
  ∀ n rest, deepest n (ts ++ rest) = max (n + nesting ts) (deepest n rest)

variable {ts us : List Token}

theorem bracketed_nil : Bracketed [] := by
  intro n rest
  have hle := le_deepest n rest
  simp only [List.nil_append, nesting, deepest]
  omega

theorem Bracketed.nesting_append (h : Bracketed ts) (us : List Token) :
    nesting (ts ++ us) = max (nesting ts) (nesting us) := by
  simpa [nesting] using h 0 us

theorem Bracketed.append (ht : Bracketed ts) (hu : Bracketed us) : Bracketed (ts ++ us) := by
  intro n rest
  rw [List.append_assoc, ht, hu, ht.nesting_append]
  omega

theorem bracketed_single {t : Token} (h : ∀ n, openAfter n t = n) : Bracketed [t] := by
  intro n rest
  have hle := le_deepest n rest
  simp only [List.singleton_append, nesting, deepest, h]
  omega

theorem Bracketed.cons {t : Token} (h : ∀ n, openAfter n t = n) (ht : Bracketed ts) :
    Bracketed (t :: ts) :=
  (bracketed_single h).append ht

theorem nesting_cons {t : Token} (h : openAfter 0 t = 0) (ts : List Token) :
    nesting (t :: ts) = nesting ts := by
  simp [nesting, deepest, h]

section Enclosed

variable {left right : Token} (hleft : ∀ n, openAfter n left = n + 1)
  (hright : ∀ n, openAfter (n + 1) right = n) (h : Bracketed ts)
include hleft hright h

theorem deepest_enclosed (n : Nat) (rest : List Token) :
    deepest n (left :: (ts ++ right :: rest)) = max (n + (nesting ts + 1)) (deepest n rest) := by
  have hle := le_deepest n rest
  rw [deepest, hleft, h, deepest, hright]
  omega

theorem nesting_enclosed : nesting (left :: (ts ++ [right])) = nesting ts + 1 := by
  rw [nesting, deepest_enclosed hleft hright h]
  simp [deepest]

theorem Bracketed.enclosed : Bracketed (left :: (ts ++ [right])) := by
  intro n rest
  rw [nesting_enclosed hleft hright h, List.cons_append, List.append_assoc,
    List.singleton_append, deepest_enclosed hleft hright h]

end Enclosed

variable {α : Type} {cut : α → List Token} {xs : List α}

theorem bracketed_flatMap (h : ∀ x ∈ xs, Bracketed (cut x)) : Bracketed (xs.flatMap cut) := by
  induction xs with
  | nil => exact bracketed_nil
  | cons x xs ih =>
    rw [List.flatMap_cons]
    exact (h x List.mem_cons_self).append (ih fun y hy => h y (List.mem_cons_of_mem _ hy))

theorem nesting_le_flatMap (h : ∀ x ∈ xs, Bracketed (cut x)) {x : α} (hx : x ∈ xs) :
    nesting (cut x) ≤ nesting (xs.flatMap cut) := by
  induction xs with
  | nil => cases hx
  | cons y ys ih =>
    rw [List.flatMap_cons, (h y List.mem_cons_self).nesting_append]
    rcases List.mem_cons.1 hx with rfl | hmem
    · exact Nat.le_max_left _ _
    · have hle := ih (fun z hz => h z (List.mem_cons_of_mem _ hz)) hmem
      omega

theorem nesting_flatMap_le (h : ∀ x ∈ xs, Bracketed (cut x)) {room : Nat}
    (hroom : ∀ x ∈ xs, nesting (cut x) ≤ room) : nesting (xs.flatMap cut) ≤ room := by
  induction xs with
  | nil => exact Nat.zero_le room
  | cons y ys ih =>
    have hys := ih (fun x hx => h x (List.mem_cons_of_mem _ hx)) fun x hx =>
      hroom x (List.mem_cons_of_mem _ hx)
    rw [List.flatMap_cons, (h y List.mem_cons_self).nesting_append, Nat.max_le]
    exact ⟨hroom y List.mem_cons_self, hys⟩

end SchemaGraph.Sdl
