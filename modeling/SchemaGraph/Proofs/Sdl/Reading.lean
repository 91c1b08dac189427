import SchemaGraph.Sdl.Reader

/-! What readers do with tokens that they accept. -/

namespace SchemaGraph.Sdl.Reader

variable {α β : Type} {p : Reader α} {ts us : List Token} {a : α}

theorem bind_ok {f : α → Reader β} (h : p ts = .ok (a, us)) : (p >>= f) ts = f a us := by
  show (p ts >>= fun r => f r.1 r.2) = f a us
  rw [h]
  rfl

theorem map_ok {f : α → β} (h : p ts = .ok (a, us)) : (f <$> p) ts = .ok (f a, us) := by
  show (p ts >>= fun r => pure (f r.1, r.2)) = .ok (f a, us)
  rw [h]
  rfl

@[simp] theorem pure_apply (a : α) (ts : List Token) : (pure a : Reader α) ts = .ok (a, ts) := rfl

@[simp] theorem next_apply (ts : List Token) : next ts = .ok (ts.head?, ts) := rfl

@[simp] theorem rest_apply (ts : List Token) : rest ts = .ok (ts, ts) := rfl

@[simp] theorem name_cons (s : String) (ts : List Token) : name (.name s :: ts) = .ok (s, ts) := rfl

theorem exactly_cons (t : Token) (ts : List Token) : exactly t (t :: ts) = .ok ((), ts) :=
  if_pos rfl

@[simp] theorem punct_cons (c : Char) (ts : List Token) :
    punct c (.punct c :: ts) = .ok ((), ts) :=
  exactly_cons _ ts

variable {starts : Option Token → Bool}

theorem maybe_none (h : starts ts.head? = false) : maybe starts p ts = .ok (none, ts) := by
  rw [maybe, bind_ok (next_apply ts), h]
  rfl

theorem maybe_some (h : starts ts.head? = true) (hp : p ts = .ok (a, us)) :
    maybe starts p ts = .ok (some a, us) := by
  rw [maybe, bind_ok (next_apply ts), h, if_pos rfl]
  exact map_ok hp

/-- The reader takes exactly these tokens if what comes next may follow. -/
def Reads (follows : Option Token → Prop) (p : Reader α) (ts : List Token) (a : α) : Prop :=
  ∀ rest, follows rest.head? → p (ts ++ rest) = .ok (a, rest)

variable {follows : Option Token → Prop}

theorem Reads.enclosed {left right : Char} (p : Nat → Reader α) {room : Nat}
    (h : Reads follows (p room) ts a) (hright : follows (some (.punct right))) :
    Reads (fun _ => True) (enclosed left right p (room + 1))
      (.punct left :: (ts ++ [.punct right])) a := by
  intro rest _
  have hinside := h (.punct right :: rest) hright
  rw [List.cons_append, List.append_assoc, List.singleton_append, Reader.enclosed,
    bind_ok (punct_cons left _), bind_ok hinside, bind_ok (punct_cons right rest)]
  rfl

def notAt (cs : List Char) : Option Token → Bool
  | some (.punct c) => !cs.contains c
  | _ => true

theorem atPunct_of_notAt {cs : List Char} {t : Option Token} (h : notAt cs t = true) {c : Char}
    (hc : c ∈ cs) : atPunct c t = false := by
  rw [atPunct, decide_eq_false_iff_not]
  rintro rfl
  simp [notAt, hc] at h

theorem notAt_of_subset {cs ds : List Char} {t : Option Token} (h : notAt cs t = true)
    (hsub : ds ⊆ cs) : notAt ds t = true := by
  unfold notAt at *
  split
  · rename_i c
    simp only [Bool.not_eq_true', List.contains_eq_mem, decide_eq_false_iff_not] at h ⊢
    exact fun hc => h (hsub hc)
  · rfl

def Opens (starts : Option Token → Bool) (follows : Option Token → Prop) (ts : List Token) :
    Prop :=
  ∃ t more, ts = t :: more ∧ starts (some t) = true ∧ follows (some t)

section Items

variable {cut : β → List Token} {val : β → α} {xs : List β}
  (hopens : ∀ x ∈ xs, Opens starts follows (cut x))
include hopens

theorem follows_flatMap {rest : List Token} (hrest : follows rest.head?) :
    follows (xs.flatMap cut ++ rest).head? := by
  cases xs with
  | nil => exact hrest
  | cons x xs =>
    obtain ⟨t, ts, hcut, -, hfollow⟩ := hopens x List.mem_cons_self
    rw [List.flatMap_cons, hcut]
    exact hfollow

variable (hread : ∀ x ∈ xs, Reads follows p (cut x) (val x))
include hread

theorem reads_many :
    Reads (fun t => follows t ∧ starts t = false) (many starts p) (xs.flatMap cut)
      (xs.map val) := by
  intro rest ⟨hrest, hstop⟩
  induction xs with
  | nil => exact many_of_not_starts starts p rest hstop
  | cons x xs ih =>
    have hopens' := fun y hy => hopens y (List.mem_cons_of_mem x hy)
    have hmore := ih hopens' fun y hy => hread y (List.mem_cons_of_mem _ hy)
    obtain ⟨t, ts, hcut, hstart, -⟩ := hopens x List.mem_cons_self
    -- What follows `x` is the next item, or what follows the whole list.
    rw [List.flatMap_cons, List.append_assoc, List.map_cons]
    refine many_cons starts p ?_ (hread x List.mem_cons_self _ (follows_flatMap hopens' hrest)) ?_
      hmore
    · rw [hcut]
      exact hstart
    · simp only [hcut, List.length_append, List.length_cons]
      omega

theorem reads_many1 (hne : xs ≠ []) :
    Reads (fun t => follows t ∧ starts t = false) (many1 starts p) (xs.flatMap cut)
      (xs.map val) := by
  intro rest ⟨hrest, hstop⟩
  obtain ⟨x, xs, rfl⟩ := List.exists_cons_of_ne_nil hne
  have hopens' := fun y hy => hopens y (List.mem_cons_of_mem x hy)
  have hmore := reads_many hopens' (fun y hy => hread y (List.mem_cons_of_mem _ hy)) rest
    ⟨hrest, hstop⟩
  rw [List.flatMap_cons, List.append_assoc, many1,
    bind_ok (hread x List.mem_cons_self _ (follows_flatMap hopens' hrest)), bind_ok hmore]
  rfl

end Items

end SchemaGraph.Sdl.Reader
