import Mathlib
import Staging.Proofs.Store.InUse

namespace Staging

namespace Disk

def tableIn (d : Disk) (p : Path) : Table := ((d.tableFile? p).bind (·.table)).getD .empty

structure SameTables (d e : Disk) : Prop where
  inFile : ∀ p, e.tableIn p = d.tableIn p
  named : ∀ name, e.named.get? name = d.named.get? name
  shared : ∀ name, e.shared.lookup name = d.shared.lookup name

variable {d e : Disk} {p : Path}

theorem SameTables.refl (d : Disk) : d.SameTables d := ⟨fun _ => rfl, fun _ => rfl, fun _ => rfl⟩

theorem SameTables.trans {e' : Disk} (h : d.SameTables e) (h' : e.SameTables e') :
    d.SameTables e' where
  inFile p := (h'.inFile p).trans (h.inFile p)
  named name := (h'.named name).trans (h.named name)
  shared name := (h'.shared name).trans (h.shared name)

theorem sameTables_put {f : TableFile} (h : f.table.getD .empty = d.tableIn p) :
    d.SameTables (d.put p (.table f)) := by
  refine ⟨fun q => ?_, fun _ => rfl, fun _ => rfl⟩
  by_cases hq : q = p
  · subst hq
    rw [← h]
    simp [tableIn, tableFile?, put]
  · simp [tableIn, tableFile?, put, SortedMap.get?_insert_of_ne _ hq]

theorem sameTables_touch (d : Disk) (p : Path) : d.SameTables (d.touch p) := by
  unfold touch
  split_ifs with hfile
  · exact .refl d
  · have habsent : d.files.get? p = none := by
      simpa [isFile, SortedMap.contains] using hfile
    refine ⟨fun q => ?_, fun _ => rfl, fun _ => rfl⟩
    by_cases hq : q = p
    · subst hq
      simp [tableIn, tableFile?, put, habsent]
    · simp [tableIn, tableFile?, put, SortedMap.get?_insert_of_ne _ hq]

theorem sameTables_changeTable (d : Disk) (p : Path) {change : TableFile → TableFile}
    (h : ∀ f, (change f).table = f.table) : d.SameTables (d.changeTable p change) := by
  unfold changeTable
  split
  · rename_i f hf
    apply sameTables_put
    rw [tableIn, hf, h]
    rfl
  · exact .refl d

theorem sameTables_makeParents (d : Disk) (name : String) :
    d.SameTables (d.makeParents name).2 := by
  obtain ⟨directories, hd⟩ := d.makeParents_eq name
  rw [hd]
  exact ⟨fun _ => rfl, fun _ => rfl, fun _ => rfl⟩

def Reverts {α : Type} (d : Disk) (close : α → Disk → Disk) (x : Except StoreError α × Disk) :
    Prop :=
  match x with
  | (.ok a, e) => d.SameTables (close a e)
  | (.error _, e) => d.SameTables e

theorem SameTables.reverts {α : Type} {close : α → Disk → Disk} {x : Except StoreError α × Disk}
    (h : d.SameTables e) (hx : e.Reverts close x) : d.Reverts close x := by
  obtain ⟨_ | a, e'⟩ := x
  · exact h.trans hx
  · exact h.trans hx

end Disk

namespace Source

theorem close_share (s : Source) (d : Disk) (l : List (SharedName × Source × Nat)) :
    s.close { d with shared := l } = { s.close d with shared := l } := by
  cases s with
  | own _ | frozen _ => rfl
  | file p _ logging =>
    cases logging with
    | false => rfl
    | true =>
      simp only [close, Disk.changeTable, Disk.tableFile?]
      split <;> rfl
  | named name _ _ =>
    simp only [close]
    split <;> rfl

theorem shared_close (s : Source) (d : Disk) : (s.close d).shared = d.shared := by
  have h : s.close d = { s.close d with shared := d.shared } := s.close_share d d.shared
  rw [h]

end Source

namespace Connection

variable {d : Disk}

theorem table_of_tableAt? {p : Path} {access : Access} {f : TableFile}
    (h : tableAt? d p access = some f) : f.table.getD .empty = d.tableIn p := by
  unfold tableAt? at h
  split at h
  · rename_i f' hf
    cases h
    simp [Disk.tableIn, Disk.tableFile?, hf]
  · cases h
  · rename_i hf
    cases h
    simp [Disk.tableIn, Disk.tableFile?, hf, TableFile.blank]
  · rename_i hf
    split_ifs at h
    cases h
    simp [Disk.tableIn, Disk.tableFile?, hf, TableFile.blank]

theorem reverts_openFrozen (p : Path) (f : TableFile) (d : Disk) :
    d.Reverts Source.close (openFrozen p f d) := by
  unfold openFrozen
  split
  · exact .refl d
  · exact d.sameTables_touch p

theorem reverts_openReadOnly {p : Path} {f : TableFile} (h : f.table.getD .empty = d.tableIn p)
    (l : Location) : d.Reverts Source.close (openReadOnly l p f d) := by
  unfold openReadOnly
  split_ifs
  · exact .refl d
  · apply (Disk.sameTables_put (f := f.join) h).trans
    exact Disk.sameTables_changeTable _ p (TableFile.table_leave · true)
  · exact .refl d

theorem reverts_openWritable {p : Path} {f : TableFile} (h : f.table.getD .empty = d.tableIn p)
    (l : Location) : d.Reverts Source.close (openWritable l p f d) := by
  unfold openWritable
  split_ifs
  · exact d.sameTables_touch p
  · apply (Disk.sameTables_put (f := f.join) h).trans
    exact Disk.sameTables_changeTable _ p (TableFile.table_leave · true)
  · exact Disk.sameTables_put (f := f.toLogged) h
  · apply (Disk.sameTables_put (f := f.toLogged.made.join) h).trans
    exact Disk.sameTables_changeTable _ p (TableFile.table_leave · false)
  · exact .refl d
  · exact Disk.sameTables_put (f := f.made) h

theorem reverts_openFile (l : Location) (p : Path) (d : Disk) :
    d.Reverts Source.close (openFile l p d) := by
  unfold openFile
  split
  · exact .refl d
  · rename_i f hf
    have htable := table_of_tableAt? hf
    split_ifs
    · exact reverts_openFrozen p f d
    · exact reverts_openReadOnly htable l
    · exact reverts_openWritable htable l

theorem sameTables_keepNamed_again (d : Disk) {name : Bytes} {t : Table} {n : Nat}
    (h : n ≠ 0 ∧ d.named.get? name = some (t, n) ∨ n = 0 ∧ d.named.get? name = none)
    (readOnly : Bool) (seen : Option Table) :
    d.SameTables ((Source.named name readOnly seen).close (d.keepNamed name t (n + 1))) := by
  have hclose : (Source.named name readOnly seen).close (d.keepNamed name t (n + 1)) =
      (d.keepNamed name t (n + 1)).keepNamed name t n := by
    simp [Source.close, Disk.keepNamed]
  rw [hclose]
  refine ⟨fun _ => rfl, fun other => ?_, fun _ => rfl⟩
  by_cases hother : other = name
  · subst hother
    rcases h with ⟨hn, hget⟩ | ⟨hn, hget⟩ <;> simp [Disk.keepNamed, hn, hget]
  · rcases h with ⟨hn, -⟩ | ⟨hn, -⟩ <;>
      simp [Disk.keepNamed, hn, SortedMap.get?_insert_of_ne _ hother,
        SortedMap.get?_erase_of_ne hother]

theorem reverts_openTable (h : d.InUse) (l : Location) :
    d.Reverts Source.close (openTable l d) := by
  unfold openTable
  by_cases hname : (!l.isPlainMemory && decide (tableNameLimit < l.path.length)) = true
  · rw [if_pos hname]
    exact .refl d
  · rw [if_neg hname]
    cases l.isRooted with
    | false =>
      simp only [Bool.false_eq_true, if_false]
      split <;> exact .refl d
    | true =>
      cases hget : d.named.get? l.path with
      | some x =>
        obtain ⟨t, n⟩ := x
        exact sameTables_keepNamed_again d (Or.inl ⟨h.1 _ _ _ hget, hget⟩) _ _
      | none =>
        simp only [if_true]
        split_ifs
        · exact .refl d
        · exact sameTables_keepNamed_again d (Or.inr ⟨rfl, hget⟩) _ _

theorem reverts_openSource (h : d.InUse) (l : Location) :
    d.Reverts Source.close (openSource l d) := by
  unfold openSource
  split
  · exact reverts_openTable h l
  · split
    · split_ifs
      · exact reverts_openFile l _ d
      · exact .refl d
    · exact .refl d

theorem sameTables_share_again (h : d.InUse) {name : SharedName} {s : Source} {holders : Nat}
    (hs : d.shared.lookup name = some (s, holders)) :
    d.SameTables ((Connection.shared name).close (d.share name s (holders + 1))) := by
  obtain ⟨n, rfl⟩ := Nat.exists_eq_succ_of_ne_zero (h.2 name s holders hs)
  have hclose : (Connection.shared name).close (d.share name s (n + 1 + 1)) =
      (d.share name s (n + 1 + 1)).share name s (n + 1) := by
    simp only [close, Disk.lookup_share, if_true]
  rw [hclose]
  refine ⟨fun _ => rfl, fun _ => rfl, fun other => ?_⟩
  rw [Disk.lookup_share, Disk.lookup_share]
  split_ifs with hother
  · rw [hother, hs]
  · rfl

theorem sameTables_share_once {e : Disk} {name : SharedName} {s : Source}
    (hnone : d.shared.lookup name = none) (hs : d.SameTables (s.close e)) :
    d.SameTables ((Connection.shared name).close (e.share name s 1)) := by
  have hclose : (Connection.shared name).close (e.share name s 1) =
      { s.close e with shared := ((e.share name s 1).unshare name).shared } := by
    simp only [close, Disk.lookup_share, if_true]
    exact s.close_share e _
  rw [hclose]
  refine ⟨hs.inFile, hs.named, fun other => ?_⟩
  by_cases hother : other = name
  · rw [hother, hnone]
    exact Disk.lookup_unshare_self _ name
  · rw [← hs.shared, s.shared_close, Disk.unshare]
    dsimp only
    rw [Disk.lookup_shared_of_ne hother, Disk.lookup_share, if_neg hother]

theorem reverts_ofLocation (h : d.InUse) (l : Location) :
    d.Reverts Connection.close (ofLocation l d) := by
  have hopen := reverts_openSource h l
  unfold ofLocation
  split
  · rcases hx : openSource l d with ⟨_ | s, e⟩
    · rwa [hx] at hopen
    · rwa [hx] at hopen
  · split
    · rename_i hs
      exact sameTables_share_again h hs
    · rename_i hnone
      split
      · rename_i hx
        rw [hx] at hopen
        exact sameTables_share_once hnone hopen
      · rename_i hx
        rwa [hx] at hopen

theorem reverts_ofName (h : d.InUse) (name : Option String) :
    d.Reverts Connection.close (ofName name d) := by
  cases name with
  | none => exact .refl d
  | some name =>
    have hmade := h.makeParents name
    have hsame := d.sameTables_makeParents name
    unfold ofName
    rcases hm : d.makeParents name with ⟨_ | _, e⟩
    · rw [hm] at hsame
      simp only [hm]
      exact hsame
    · rw [hm] at hmade hsame
      simp only [hm]
      cases Location.ofName? name with
      | none => exact hsame
      | some l => exact hsame.reverts (reverts_ofLocation hmade l)

end Connection

namespace DurableStore

variable {s s' : DurableStore} {d e : Disk}

theorem openOn_error {err : StoreError} (h : d.InUse) (hx : s.openOn d = (.error err, s', e)) :
    s' = s ∧ d.SameTables e := by
  have hrev := Connection.reverts_ofName h s.path
  unfold openOn at hx
  split_ifs at hx
  · cases hx
  · split at hx
    · cases hx
    · rename_i hc
      cases hx
      rw [hc] at hrev
      exact ⟨rfl, hrev⟩

theorem close_openOn (h : d.InUse) (hclosed : s.isOpen = false)
    (hx : s.openOn d = (.ok (), s', e)) :
    (s'.close e).1 = s ∧ d.SameTables (s'.close e).2 := by
  have hrev := Connection.reverts_ofName h s.path
  unfold openOn at hx
  rw [if_neg (by simp [hclosed])] at hx
  split at hx
  · rename_i hc
    cases hx
    rw [hc] at hrev
    have hnone : s.connection = none := by simpa [isOpen] using hclosed
    refine ⟨?_, hrev⟩
    cases s
    cases hnone
    rfl
  · cases hx

end DurableStore

end Staging
