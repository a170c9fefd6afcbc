import BrowserMesh.Library.Replication

/-! # States that no use tells apart

* **Uses.**  A state of a replicated data type is updated, merges another state, or is merged into one.
* **Alike.**  After the same uses the same is read.  Where a step reads no more than `key` has of a state, the states that
  are alike are those with the same key (`alike_iff`). -/

namespace BrowserMesh.Replication
variable {ι σ Op κ ω : Type}

inductive Use (ι σ Op : Type) where
  | update (i : ι) (op : Op)
  | merge (other : σ)
  | mergedInto (other : σ)

namespace System
variable (S : System ι σ Op)

def use (s : σ) : Use ι σ Op → Option σ
  | .update i op => S.update i op s
  | .merge other => S.merge s other
  | .mergedInto other => S.merge other s

/-- No uses tell the states apart by what is read after them. -/
def Alike (view : σ → ω) (s t : σ) : Prop :=
  ∀ us : List (Use ι σ Op), (us.foldlM S.use s).map view = (us.foldlM S.use t).map view

/-- The key of a result depends on keys. -/
structure Reads (key : σ → κ) : Prop where
  update : ∀ i op s t, key s = key t → (S.update i op s).map key = (S.update i op t).map key
  merge : ∀ s s' t t', key s = key s' → key t = key t' → (S.merge s t).map key = (S.merge s' t').map key

variable {S}

theorem alike_iff {key : σ → κ} {view : σ → ω} (h : S.Reads key) (hview : ∀ s t, key s = key t ↔ view s = view t)
    {s t : σ} :
    S.Alike view s t ↔ key s = key t := by
  constructor
  · exact fun halike => (hview s t).mpr (Option.some.inj (halike []))
  · intro hkey us
    induction us generalizing s t with
    | nil => exact congrArg some ((hview s t).mp hkey)
    | cons u us ih =>
        have hstep : (S.use s u).map key = (S.use t u).map key := by
          cases u with
          | update i op => exact h.update i op s t hkey
          | merge other => exact h.merge s t other other hkey rfl
          | mergedInto other => exact h.merge other other s t rfl hkey
        rw [List.foldlM_cons, List.foldlM_cons]
        cases hs : S.use s u with
        | none =>
            rw [hs] at hstep
            rw [Option.map_eq_none_iff.mp hstep.symm]
        | some s' =>
            rw [hs] at hstep
            obtain ⟨t', ht, heq⟩ := Option.map_eq_some_iff.mp hstep.symm
            rw [ht]
            exact ih heq.symm

theorem invariant_uses {I : σ → Prop} (hstep : ∀ s u t, I s → S.use s u = some t → I t)
    {us : List (Use ι σ Op)} {s t : σ}
    (hs : I s) (h : us.foldlM S.use s = some t) : I t := by
  induction us generalizing s with
  | nil => exact Option.some.inj h ▸ hs
  | cons u us ih =>
      obtain ⟨r, hr, hrest⟩ := Option.bind_eq_some_iff.mp ((List.foldlM_cons ..).symm.trans h)
      exact ih (hstep s u r hs hr) hrest

end System
end BrowserMesh.Replication
