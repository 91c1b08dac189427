/-! Entries in the order of their keys. Of two entries with one key the later wins. -/

namespace SchemaGraph.Sorted

variable {α : Type}

def insert (k : String) (v : α) : List (String × α) → List (String × α)
  | [] => [(k, v)]
  | e :: es =>
    if k < e.1 then (k, v) :: e :: es
    else if k = e.1 then (k, v) :: es
    else e :: insert k v es

def ofList (es : List (String × α)) : List (String × α) :=
  es.foldl (fun acc e => insert e.1 e.2 acc) []

def Ascending (es : List (String × α)) : Prop :=
  es.Pairwise fun a b => a.1 < b.1

theorem mem_insert {k : String} {v : α} {es : List (String × α)} {e : String × α}
    (h : e ∈ insert k v es) : e = (k, v) ∨ e ∈ es := by
  induction es with
  | nil => simpa [insert] using h
  | cons a es ih =>
    simp only [insert] at h
    split at h
    · simpa using h
    · split at h
      · rcases List.mem_cons.1 h with h | h
        · exact .inl h
        · exact .inr (List.mem_cons_of_mem _ h)
      · rcases List.mem_cons.1 h with h | h
        · exact .inr (h ▸ List.mem_cons_self)
        · rcases ih h with h | h
          · exact .inl h
          · exact .inr (List.mem_cons_of_mem _ h)

theorem ascending_insert (k : String) (v : α) {es : List (String × α)} (h : Ascending es) :
    Ascending (insert k v es) := by
  induction es with
  | nil => simp [insert, Ascending]
  | cons a es ih =>
    simp only [Ascending, List.pairwise_cons] at h
    simp only [insert]
    split
    · rename_i hlt
      refine List.pairwise_cons.2 ⟨?_, List.pairwise_cons.2 h⟩
      intro b hb
      rcases List.mem_cons.1 hb with hb | hb
      · exact hb ▸ hlt
      · exact String.lt_trans hlt (h.1 b hb)
    · split
      · rename_i heq
        exact List.pairwise_cons.2 ⟨fun b hb => heq ▸ h.1 b hb, h.2⟩
      · rename_i hlt hne
        refine List.pairwise_cons.2 ⟨?_, ih h.2⟩
        intro b hb
        rcases mem_insert hb with hb | hb
        · subst hb
          exact Std.lt_of_le_of_ne (Std.not_lt.1 hlt) (fun he => hne he.symm)
        · exact h.1 b hb

theorem ascending_foldl_insert (es : List (String × α)) {acc : List (String × α)}
    (h : Ascending acc) : Ascending (es.foldl (fun acc e => insert e.1 e.2 acc) acc) := by
  induction es generalizing acc with
  | nil => exact h
  | cons e es ih => exact ih (ascending_insert e.1 e.2 h)

theorem ascending_ofList (es : List (String × α)) : Ascending (ofList es) :=
  ascending_foldl_insert es List.Pairwise.nil

theorem mem_of_mem_foldl_insert {es acc : List (String × α)} {e : String × α}
    (h : e ∈ es.foldl (fun acc e => insert e.1 e.2 acc) acc) : e ∈ acc ∨ e ∈ es := by
  induction es generalizing acc with
  | nil => exact .inl h
  | cons a es ih =>
    rcases ih h with h | h
    · rcases mem_insert h with rfl | h
      · exact .inr List.mem_cons_self
      · exact .inl h
    · exact .inr (List.mem_cons_of_mem _ h)

theorem mem_of_mem_ofList {es : List (String × α)} {e : String × α} (h : e ∈ ofList es) :
    e ∈ es :=
  (mem_of_mem_foldl_insert h).resolve_left List.not_mem_nil

theorem insert_eq_append {k : String} {v : α} {es : List (String × α)}
    (h : ∀ e ∈ es, e.1 < k) : insert k v es = es ++ [(k, v)] := by
  induction es with
  | nil => rfl
  | cons e es ih =>
    have hlt := h e List.mem_cons_self
    have hne : k ≠ e.1 := fun he => String.lt_irrefl e.1 (he ▸ hlt)
    rw [insert, if_neg (String.lt_asymm hlt), if_neg hne,
      ih fun b hb => h b (List.mem_cons_of_mem _ hb), List.cons_append]

theorem foldl_insert_of_ascending (es : List (String × α)) {acc : List (String × α)}
    (h : Ascending (acc ++ es)) : es.foldl (fun acc e => insert e.1 e.2 acc) acc = acc ++ es := by
  induction es generalizing acc with
  | nil => simp
  | cons e es ih =>
    have hlt : ∀ a ∈ acc, a.1 < e.1 := fun a ha =>
      (List.pairwise_append.1 h).2.2 a ha e List.mem_cons_self
    rw [List.foldl_cons, insert_eq_append hlt, ih (by simpa using h)]
    simp

theorem ofList_of_ascending {es : List (String × α)} (h : Ascending es) : ofList es = es :=
  foldl_insert_of_ascending es h

end SchemaGraph.Sorted
