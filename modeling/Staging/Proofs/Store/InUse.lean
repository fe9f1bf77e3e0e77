import Mathlib
import Staging.Proofs.Store.Backends

namespace Staging

namespace Disk

def InUse (d : Disk) : Prop :=
  d.NamedInUse ∧ ∀ name s holders, d.shared.lookup name = some (s, holders) → holders ≠ 0

theorem inUse_empty : Disk.empty.InUse := by
  refine ⟨namedInUse_empty, fun name s holders h => ?_⟩
  simp [Disk.empty] at h

theorem InUse.keepNamed {d : Disk} (h : d.InUse) (name : Bytes) (t : Table) (connections : Nat) :
    (d.keepNamed name t connections).InUse :=
  ⟨h.1.keepNamed name t connections, h.2⟩

theorem lookup_shared_of_ne {name other : SharedName} (h : other ≠ name)
    (l : List (SharedName × Source × Nat)) :
    (l.filter (·.1 ≠ name)).lookup other = l.lookup other := by
  induction l with
  | nil => rfl
  | cons x l ih =>
    obtain ⟨here, s, holders⟩ := x
    by_cases hx : here = name
    · have hne : other ≠ here := hx ▸ h
      rw [List.filter_cons_of_neg (by simp [hx]), ih, List.lookup_cons, beq_false_of_ne hne]
    · rw [List.filter_cons_of_pos (by simp [hx]), List.lookup_cons, List.lookup_cons, ih]

theorem lookup_unshare_self (d : Disk) (name : SharedName) :
    (d.unshare name).shared.lookup name = none := by
  rw [unshare, List.lookup_eq_none_iff]
  intro x hx
  have hne := (List.mem_filter.mp hx).2
  simp only [ne_eq, decide_not, Bool.not_eq_true', decide_eq_false_iff_not] at hne
  simpa using fun h => hne h.symm

theorem lookup_share (d : Disk) (name other : SharedName) (s : Source) (holders : Nat) :
    (d.share name s holders).shared.lookup other =
      if other = name then some (s, holders) else d.shared.lookup other := by
  split_ifs with h
  · simp [share, h]
  · rw [share, List.lookup_cons, beq_false_of_ne h]
    exact lookup_shared_of_ne h _

theorem InUse.share {d : Disk} (h : d.InUse) (name : SharedName) (s : Source) {holders : Nat}
    (hn : holders ≠ 0) : (d.share name s holders).InUse := by
  refine ⟨h.1, fun other s' n hs => ?_⟩
  rw [lookup_share] at hs
  split_ifs at hs
  · cases hs
    exact hn
  · exact h.2 other s' n hs

theorem InUse.unshare {d : Disk} (h : d.InUse) (name : SharedName) : (d.unshare name).InUse := by
  refine ⟨h.1, fun other s' n hs => ?_⟩
  by_cases hother : other = name
  · rw [hother, lookup_unshare_self] at hs
    cases hs
  · rw [Disk.unshare, lookup_shared_of_ne hother] at hs
    exact h.2 other s' n hs

theorem makeAlong_eq (d : Disk) (p : Path) (names : List Bytes) :
    ∃ directories, (d.makeAlong p names).2 = { d with directories := directories } := by
  induction names generalizing d p with
  | nil => exact ⟨d.directories, rfl⟩
  | cons name names ih =>
    simp only [makeAlong]
    split_ifs
    · exact ⟨d.directories, rfl⟩
    · exact ih d _
    · exact ih (d.addDirectory _) _

theorem makeParents_eq (d : Disk) (name : String) :
    ∃ directories, (d.makeParents name).2 = { d with directories := directories } := by
  unfold makeParents
  split
  · exact d.makeAlong_eq _ _
  · exact ⟨d.directories, rfl⟩

theorem InUse.makeParents {d : Disk} (h : d.InUse) (name : String) :
    (d.makeParents name).2.InUse := by
  obtain ⟨directories, hd⟩ := d.makeParents_eq name
  rw [hd]
  exact h

end Disk

namespace Connection

variable {d : Disk}

theorem inUse_openFile (h : d.InUse) (l : Location) (p : Path) :
    (openFile l p d).2.InUse := by
  have htouch : (d.touch p).InUse := by
    unfold Disk.touch
    split_ifs <;> exact h
  unfold openFile
  split
  · exact h
  · rename_i f _
    split_ifs
    · unfold openFrozen
      split
      · exact h
      · exact htouch
    · unfold openReadOnly
      split_ifs <;> exact h
    · unfold openWritable
      split_ifs <;> first | exact h | exact htouch

theorem inUse_openTable (h : d.InUse) (l : Location) :
    (openTable l d).2.InUse := by
  unfold openTable
  by_cases hname : (!l.isPlainMemory && decide (tableNameLimit < l.path.length)) = true
  · rw [if_pos hname]
    exact h
  · rw [if_neg hname]
    cases l.isRooted with
    | false =>
      simp only [Bool.false_eq_true, if_false]
      split <;> exact h
    | true =>
      cases d.named.get? l.path with
      | some x => exact h.keepNamed _ _ _
      | none =>
        simp only [if_true]
        split
        · exact h
        · exact h.keepNamed _ _ _

theorem inUse_openSource (h : d.InUse) (l : Location) :
    (openSource l d).2.InUse := by
  unfold openSource
  split
  · exact inUse_openTable h l
  · split
    · split_ifs
      · exact inUse_openFile h l _
      · exact h
    · exact h

theorem inUse_ofName (h : d.InUse) (name : Option String) :
    (ofName name d).2.InUse := by
  cases name with
  | none => exact h
  | some name =>
    have hmade := h.makeParents name
    unfold ofName
    rcases hm : d.makeParents name with ⟨_ | _, d'⟩
    · rw [hm] at hmade
      simpa only [hm] using hmade
    · rw [hm] at hmade
      simp only [hm]
      cases Location.ofName? name with
      | none => exact hmade
      | some l =>
        have hopen := inUse_openSource hmade l
        simp only [ofLocation]
        split
        · exact hopen
        · split
          · exact hmade.share _ _ (Nat.succ_ne_zero _)
          · split
            · rename_i hs
              rw [hs] at hopen
              exact hopen.share _ _ one_ne_zero
            · rename_i hs
              rw [hs] at hopen
              exact hopen

end Connection

namespace Source

variable {d : Disk}

theorem inUse_changeTable (h : d.InUse) (p : Path) (change : TableFile → TableFile) :
    (d.changeTable p change).InUse := by
  unfold Disk.changeTable
  split <;> exact h

theorem inUse_setTable (s : Source) (h : d.InUse) (t : Table) :
    (s.setTable d t).2.InUse := by
  cases s with
  | own _ => exact h
  | frozen _ => exact h
  | file p _ _ => exact inUse_changeTable h p _
  | named name _ _ =>
    simp only [setTable]
    split
    · exact h.keepNamed _ _ _
    · exact h

theorem inUse_close (s : Source) (h : d.InUse) : (s.close d).InUse := by
  cases s with
  | own _ => exact h
  | frozen _ => exact h
  | file p _ logging =>
    cases logging with
    | false => exact h
    | true => exact inUse_changeTable h p _
  | named name _ _ =>
    simp only [close]
    split
    · exact h.keepNamed _ _ _
    · exact h

end Source

namespace Connection

variable {d : Disk}

theorem inUse_setTable (c : Connection) (h : d.InUse) (t : Table) :
    (c.setTable d t).2.InUse := by
  cases c with
  | alone s => exact s.inUse_setTable h t
  | shared name =>
    simp only [setTable]
    split
    · rename_i s holders hs
      exact (s.inUse_setTable h t).share _ _ (h.2 name s holders hs)
    · exact h

theorem inUse_close (c : Connection) (h : d.InUse) : (c.close d).InUse := by
  cases c with
  | alone s => exact s.inUse_close h
  | shared name =>
    simp only [close]
    split
    · exact h.share _ _ (Nat.succ_ne_zero _)
    · rename_i s _ _ _
      exact s.inUse_close (h.unshare name)
    · exact h

end Connection

namespace DurableStore

variable {d : Disk}

theorem inUse_openOn (s : DurableStore) (h : d.InUse) : (s.openOn d).2.2.InUse := by
  have hopen := Connection.inUse_ofName h s.path
  unfold openOn
  split_ifs
  · exact h
  · split
    · rename_i hc
      rwa [hc] at hopen
    · rename_i hc
      rwa [hc] at hopen

theorem inUse_close (s : DurableStore) (h : d.InUse) : (s.close d).2.InUse := by
  unfold close
  split
  · exact Connection.inUse_close _ h
  · exact h

theorem inUse_writeBatch (s : DurableStore) (h : d.InUse) (b : Batch) :
    (s.writeBatch d b).2.2.InUse := by
  unfold writeBatch
  split
  · split_ifs
    · exact h
    · exact h
    · unfold setTable
      split
      · exact Connection.inUse_setTable _ h _
      · exact h
  · exact h

end DurableStore

namespace Shelf

variable {s : Shelf}

theorem inUse_call {α : Type} {p : Primitive} {act : Shelf → Except StoreError α × Shelf}
    (h : s.disk.InUse) (hact : (act (s.counted p)).2.disk.InUse) :
    (s.call p act).2.disk.InUse := by
  unfold call
  split
  · exact h
  · exact hact

theorem inUse_change {onMemory : MemoryStore → Except StoreError Unit × MemoryStore}
    {onDurable : DurableStore → Disk → Except StoreError Unit × DurableStore × Disk}
    (h : s.disk.InUse) (hd : ∀ d, (onDurable d s.disk).2.2.InUse) :
    (change onMemory onDurable s).2.disk.InUse := by
  unfold change
  split
  · exact h
  · exact hd _

theorem inUse_serve (h : s.disk.InUse) (q : Request) :
    (s.serve q).2.disk.InUse := by
  have hlook {α : Type} (p : Primitive) (onMemory : MemoryStore → Except StoreError α)
      (onDurable : DurableStore → Disk → Except StoreError α) :
      (s.call p (look onMemory onDurable)).2.disk.InUse := by
    rwa [look_counted]
  cases q with
  | openStore => exact inUse_call h (inUse_change h fun d => d.inUse_openOn h)
  | closeStore => exact inUse_call h (inUse_change h fun d => d.inUse_close h)
  | isOpen => exact h
  | get _ => exact hlook _ _ _
  | put _ _ => exact inUse_call h (inUse_change h fun d => d.inUse_writeBatch h _)
  | delete _ => exact inUse_call h (inUse_change h fun d => d.inUse_writeBatch h _)
  | batch b => exact inUse_call h (inUse_change h fun d => d.inUse_writeBatch h b)
  | page _ _ _ => exact hlook _ _ _

theorem inUse_meet (h : s.disk.InUse) (e : Event) : (s.meet e).2.disk.InUse := by
  cases e with
  | request q => exact inUse_serve h q
  | loss how sync busyTimeoutMs =>
    simp only [meet, replace]
    split
    · exact h
    · rename_i d _
      have hlost : (d.lose s.disk how).InUse := by
        cases how with
        | dropped => exact d.inUse_close h
        | forgotten => exact h
        | killed => exact Disk.inUse_empty
      split_ifs
      · exact inUse_serve hlost .openStore
      · exact hlost

theorem inUse_meetAll (h : s.disk.InUse) (events : List Event) :
    (s.meetAll events).2.disk.InUse := by
  induction events generalizing s with
  | nil => exact h
  | cons e events ih => exact ih (inUse_meet h e)

end Shelf

end Staging
