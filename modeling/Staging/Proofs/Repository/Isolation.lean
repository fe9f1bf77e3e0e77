import Mathlib
import Staging.Proofs.Repository.Operations

namespace Staging

namespace Repository

variable {ι : Type} {r : ι → Repository}

def Keeps (r : ι → Repository) (t : Table) (l : ι → Ledger) : Prop :=
  ∀ raw v, t.get? raw = some v ↔
    ∃ i a k, raw = (r i).keySpace.rawKey a k ∧ ((l i).part a).get? k = some v

def Distinct (r : ι → Repository) : Prop := ∀ i j, (r i).name = (r j).name → i = j

namespace Keeps

variable {t u : Table} {l : ι → Ledger}

theorem get?_rawKey (hr : Distinct r) (h : Keeps r t l) (i : ι) (a : KeySpace.Part) (k : String) :
    t.get? ((r i).keySpace.rawKey a k) = ((l i).part a).get? k := by
  apply Option.ext
  intro v
  rw [h]
  constructor
  · rintro ⟨j, b, m, hraw, hv⟩
    obtain ⟨hname, rfl, rfl⟩ := KeySpace.rawKey_injective hraw
    rwa [hr i j hname]
  · intro hv
    exact ⟨i, a, k, rfl, hv⟩

theorem ledger (hr : Distinct r) (h : Keeps r t l) (i : ι) : (r i).ledger t = l i := by
  have part (a : KeySpace.Part) : ((r i).ledger t).part a = (l i).part a := by
    apply SortedMap.ext_get?
    intro k
    rw [get?_ledger, h.get?_rawKey hr]
  exact congrArg₂ Ledger.mk (part .live) (part .completed)

end Keeps

variable [DecidableEq ι] {l : ι → Ledger} {s : Shelf} {t : Table}

def plain (name : String) (h : KeySpace.IsName name) : Repository :=
  ⟨.named name, ⟨name, h⟩, Snapshot.codec⟩

end Repository

end Staging
