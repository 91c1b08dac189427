import SchemaGraph.Deletion.Listing

/-! What a listing comes to: the pages up to the first one without a cursor, or the first
failure before it. One of the two always happens, draining answers accordingly, and what comes
afterwards is not fetched. -/

namespace SchemaGraph.Script

variable {α : Type} {s : Script α}

inductive Delivers : Script α → List (Page α) → Prop where
  | last {page : Page α} {rest : Script α} (hcursor : page.nextCursor = none) :
      Delivers (.ok page :: rest) [page]
  | more {page : Page α} {next : String} {rest : Script α} {pages : List (Page α)}
      (hcursor : page.nextCursor = some next) (hrest : Delivers rest pages) :
      Delivers (.ok page :: rest) (page :: pages)

inductive FailsWith : Script α → Failure → Prop where
  | exhausted : FailsWith [] exhausted
  | failed {f : Failure} {rest : Script α} : FailsWith (.error f :: rest) f
  | later {page : Page α} {next : String} {rest : Script α} {f : Failure}
      (hcursor : page.nextCursor = some next) (hrest : FailsWith rest f) :
      FailsWith (.ok page :: rest) f

theorem delivers_or_failsWith (s : Script α) :
    (∃ pages, Delivers s pages) ∨ ∃ f, FailsWith s f := by
  induction s with
  | nil => exact .inr ⟨exhausted, .exhausted⟩
  | cons answer rest ih =>
    match answer with
    | .error f => exact .inr ⟨f, .failed⟩
    | .ok page =>
      match hcursor : page.nextCursor with
      | none => exact .inl ⟨[page], .last hcursor⟩
      | some next =>
        rcases ih with ⟨pages, hpages⟩ | ⟨f, hf⟩
        · exact .inl ⟨page :: pages, .more hcursor hpages⟩
        · exact .inr ⟨f, .later hcursor hf⟩

theorem Delivers.drain_eq {pages : List (Page α)} (h : Delivers s pages)
    (cursor : Option String) : s.drain cursor =
      (.ok (pages.flatMap Page.items), cursor :: (pages.filterMap Page.nextCursor).map some) := by
  induction h generalizing cursor with
  | last hcursor => simp [drain, hcursor]
  | more hcursor hrest ih => simp [drain, hcursor, ih, Except.map]

theorem FailsWith.drain_eq {f : Failure} (h : FailsWith s f) (cursor : Option String) :
    (s.drain cursor).1 = .error f := by
  induction h generalizing cursor with
  | exhausted => rfl
  | failed => rfl
  | later hcursor hrest ih => simp [drain, hcursor, ih, Except.map]

/-! The fetches -/

def LeadsTo (s : Script α) (pages : List (Page α)) (rest : Script α) : Prop :=
  (∀ page ∈ pages, page.nextCursor ≠ none) ∧ s = pages.map .ok ++ rest

theorem LeadsTo.nil (s : Script α) : s.LeadsTo [] s :=
  ⟨fun _ h => absurd h List.not_mem_nil, rfl⟩

theorem LeadsTo.cons {pages : List (Page α)} {rest : Script α} (h : s.LeadsTo pages rest)
    {page : Page α} (hpage : page.nextCursor ≠ none) :
    Script.LeadsTo (.ok page :: s) (page :: pages) rest :=
  ⟨List.forall_mem_cons.2 ⟨hpage, h.1⟩, congrArg (.ok page :: ·) h.2⟩

/-- The next fetch is the last one: for a page without a cursor, for a failure, or where the pages
have run out. -/
inductive Ends : Script α → Except Failure (List α) → Prop where
  | last {page : Page α} {rest : Script α} (hcursor : page.nextCursor = none) :
      Ends (.ok page :: rest) (.ok page.items)
  | failed {f : Failure} {rest : Script α} : Ends (.error f :: rest) (.error f)
  | exhausted : Ends [] (.error exhausted)

theorem exists_leadsTo_ends (s : Script α) :
    ∃ pages rest answer, s.LeadsTo pages rest ∧ rest.Ends answer := by
  induction s with
  | nil => exact ⟨[], [], _, .nil [], .exhausted⟩
  | cons answer rest ih =>
    match answer with
    | .error f => exact ⟨[], _, _, .nil _, .failed⟩
    | .ok page =>
      by_cases hcursor : page.nextCursor = none
      · exact ⟨[], _, _, .nil _, .last hcursor⟩
      · obtain ⟨pages, rest, answer, hleads, hends⟩ := ih
        exact ⟨page :: pages, rest, answer, hleads.cons hcursor, hends⟩

variable {answer : Except Failure (List α)}

theorem Ends.drain_eq (h : s.Ends answer) (cursor : Option String) :
    s.drain cursor = (answer, [cursor]) := by
  cases h with
  | last hcursor => simp only [drain, hcursor]
  | failed => rfl
  | exhausted => rfl

theorem LeadsTo.drain_eq {pages : List (Page α)} {rest : Script α} (h : s.LeadsTo pages rest)
    (hends : rest.Ends answer) (cursor : Option String) : s.drain cursor =
      (answer.map (pages.flatMap Page.items ++ ·), cursor :: pages.map Page.nextCursor) := by
  obtain ⟨hpages, rfl⟩ := h
  induction pages generalizing cursor with
  | nil =>
    show rest.drain cursor = (answer.map id, [cursor])
    rw [hends.drain_eq, Except.map_id]
    rfl
  | cons page pages ih =>
    obtain ⟨hpage, hmore⟩ := List.forall_mem_cons.1 hpages
    obtain ⟨next, hnext⟩ := Option.ne_none_iff_exists'.1 hpage
    have hitems : (answer.map (pages.flatMap Page.items ++ ·)).map (page.items ++ ·) =
        answer.map ((page :: pages).flatMap Page.items ++ ·) := by
      cases answer with
      | error f => rfl
      | ok items => simp [Except.map]
    rw [List.map_cons, List.cons_append, drain, List.map_cons]
    simp only [hnext, ih (some next) hmore, hitems]

/-- What draining the script from its first page answers, and the cursors it asks for. What stands
after the page without a cursor or after the failure has no part in either. -/
structure DrainsExactly (s : Script α) : Prop where
  delivered : ∀ pages last rest, s.LeadsTo pages (.ok last :: rest) → last.nextCursor = none →
    s.drain none =
      (.ok (pages.flatMap Page.items ++ last.items), none :: pages.map Page.nextCursor)
  failed : ∀ pages f rest, s.LeadsTo pages (.error f :: rest) →
    s.drain none = (.error f, none :: pages.map Page.nextCursor)
  runsOut : ∀ pages, s.LeadsTo pages [] →
    s.drain none = (.error exhausted, none :: pages.map Page.nextCursor)
  covered : ∃ pages rest answer, s.LeadsTo pages rest ∧ rest.Ends answer

theorem drainsExactly (s : Script α) : s.DrainsExactly where
  delivered _ _ _ h hlast := h.drain_eq (.last hlast) none
  failed _ _ _ h := h.drain_eq .failed none
  runsOut _ h := h.drain_eq .exhausted none
  covered := exists_leadsTo_ends s

end SchemaGraph.Script
