import SchemaGraph.Failure.Classify

/-! What decides the kind of a failure. Apart from 400 every status has a kind of its own, and of
all that a response says only breaking changes that are spelled out come before it. -/

namespace SchemaGraph

def statusKinds : List (Nat × FailureKind) :=
  [(401, .notAuthenticated), (403, .notAuthorized), (404, .notFound), (409, .validation),
    (500, .serverError)]

def kindOfStatus (status : Nat) : FailureKind := (statusKinds.lookup status).getD .unknown

theorem kindOfStatus_ne_breakingChange (status : Nat) :
    kindOfStatus status ≠ .breakingChange := by
  unfold kindOfStatus
  cases h : statusKinds.lookup status with
  | none => decide
  | some kind =>
    have hmem : kind ∈ statusKinds.map Prod.snd := by
      obtain ⟨before, after, heq, -⟩ := List.lookup_eq_some_iff.1 h
      rw [heq]
      simp
    exact (by decide : ∀ k ∈ statusKinds.map Prod.snd, k ≠ .breakingChange) kind hmem

namespace FailedResponse

theorem kind_eq_kindOfStatus {r : FailedResponse} (h : r.status ≠ 400) :
    r.kind = kindOfStatus r.status := by
  unfold kind kindOfStatus statusKinds
  rw [if_neg h]
  simp only [List.lookup_cons]
  grind

theorem classify_of_nil {r : FailedResponse} (h : r.breakingChanges = []) :
    r.classify = ⟨[], r.kind,
      if r.resolvedMessage.isEmpty then fallbackMessage r.kind r else r.resolvedMessage,
      some r.status⟩ := by
  unfold classify
  rw [h]
  rfl

theorem classify_of_ne_nil {r : FailedResponse} (h : r.breakingChanges ≠ []) :
    r.classify =
      ⟨[], .breakingChange, breakingChangeList r.breakingChanges, some r.status⟩ := by
  unfold classify
  split
  · rename_i hnil
    exact absurd hnil h
  · rfl

theorem classify_kind_of_nil {r : FailedResponse} (h : r.breakingChanges = []) :
    r.classify.kind = r.kind := by
  rw [classify_of_nil h]

theorem classify_kind_of_ne_nil {r : FailedResponse} (h : r.breakingChanges ≠ []) :
    r.classify.kind = .breakingChange := by
  rw [classify_of_ne_nil h]

section Status

variable {r r' : FailedResponse}

theorem classify_kind_eq_kindOfStatus_iff (h : r.status ≠ 400) :
    r.classify.kind = kindOfStatus r.status ↔ r.breakingChanges = [] := by
  constructor
  · intro hkind
    refine Classical.byContradiction fun hspelled => ?_
    rw [classify_kind_of_ne_nil hspelled] at hkind
    exact kindOfStatus_ne_breakingChange r.status hkind.symm
  · intro hnil
    rw [classify_kind_of_nil hnil, kind_eq_kindOfStatus h]

/-- Two responses with one status, other than 400, are of one kind unless exactly one of them
spells out breaking changes; it is the kind of the status unless they do. -/
theorem classify_kind_eq_iff (hstatus : r.status = r'.status) (h : r.status ≠ 400) :
    (r.classify.kind = r'.classify.kind ↔ (r.breakingChanges = [] ↔ r'.breakingChanges = [])) ∧
      (r.classify.kind = kindOfStatus r.status ↔ r.breakingChanges = []) := by
  have hr := classify_kind_eq_kindOfStatus_iff h
  have hr' := classify_kind_eq_kindOfStatus_iff (hstatus ▸ h : r'.status ≠ 400)
  rw [← hstatus] at hr'
  refine ⟨⟨fun hkind => ?_, fun hnil => ?_⟩, hr⟩
  · rw [← hr, ← hr', hkind]
  · by_cases hspelled : r.breakingChanges = []
    · exact (hr.2 hspelled).trans (hr'.2 (hnil.1 hspelled)).symm
    · rw [classify_kind_of_ne_nil hspelled,
        classify_kind_of_ne_nil fun hnone => hspelled (hnil.2 hnone)]

end Status

theorem classify_kind_eq_of_forbidden :
    let r : FailedResponse := ⟨some "contains breaking changes", [], "Forbidden", none, 403⟩
    let r' : FailedResponse :=
      ⟨none, [⟨some ⟨none⟩, "no access"⟩], "", some [[("space", .null)]], 403⟩
    r.status = r'.status ∧ r.status ≠ 400 ∧ r.classify.kind = r'.classify.kind ∧
      r.classify.kind = .notAuthorized := by
  intro r r'
  have hstatus : r.status = r'.status := rfl
  have h : r.status ≠ 400 := by decide
  obtain ⟨hsame, htable⟩ := classify_kind_eq_iff hstatus h
  exact ⟨hstatus, h, hsame.2 (iff_of_true rfl rfl), htable.2 rfl⟩

/-- A breaking change that is spelled out makes one of a missing permission. -/
theorem classify_kind_ne_of_spelled_out :
    let r : FailedResponse := ⟨none, [⟨some ⟨some (.string "Field removed")⟩, ""⟩], "", none, 403⟩
    let r' : FailedResponse := { r with errors := [] }
    r.status = r'.status ∧ r.status ≠ 400 ∧ r.classify.kind ≠ r'.classify.kind ∧
      r.classify.kind ≠ kindOfStatus r.status := by
  intro r r'
  exact ⟨rfl, by decide, by decide, by decide⟩

end FailedResponse

end SchemaGraph
