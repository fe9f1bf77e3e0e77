import Mathlib
import Staging.Store.Durable
import Staging.Proofs.Disk

namespace Staging

structure NamesFile (name : String) (p : Path) : Prop where
  isPath : Location.ofName? name = some { path := Bytes.ofString name }
  inFile : Location.isPlainMemory { path := Bytes.ofString name } = false
  short : (p.getLast?.getD []).length ≤ Connection.nameLimit

def Disk.Stores (d : Disk) (p : Path) (t : Table) : Prop :=
  d.files.get? p = none ∧ t = .empty ∨ ∃ f, d.files.get? p = some (.table f) ∧ f.table = some t

theorem Disk.Stores.put (d : Disk) (p : Path) {f : TableFile} {t : Table} (h : f.table = some t) :
    (d.put p (.table f)).Stores p t :=
  Or.inr ⟨f, SortedMap.get?_insert_self .., h⟩

theorem Disk.tableFile?_eq_some {d : Disk} {p : Path} {f : TableFile} :
    d.tableFile? p = some f ↔ d.files.get? p = some (.table f) := by
  unfold tableFile?
  split
  · rename_i g hg
    simp [hg]
  · rename_i hnone
    simp only [reduceCtorEq, false_iff]
    exact hnone f

theorem Disk.Stores.tableAt? {d : Disk} {p : Path} {t : Table} (h : d.Stores p t) :
    ∃ f, Connection.tableAt? d p .creating = some f ∧ f.table.getD .empty = t := by
  rcases h with ⟨hf, rfl⟩ | ⟨f, hf, ht⟩
  · exact ⟨.blank, by simp [Connection.tableAt?, hf], rfl⟩
  · exact ⟨f, by simp [Connection.tableAt?, hf], by simp [ht]⟩

theorem Disk.files_makeParents {d e : Disk} {name : String} {r : Except Fault Unit}
    (h : d.makeParents name = (r, e)) : e.files = d.files := by
  simp only [makeParents] at h
  split at h
  · rename_i u _
    have := files_makeAlong d u.start u.names
    rwa [h] at this
  · cases h
    rfl

theorem Connection.ofName_file {d : Disk} {name : String} {p : Path} {t : Table}
    (hn : NamesFile name p) (hd : d.Leads name p) (ht : d.Stores p t) :
    ∃ (e : Disk) (f : TableFile), Connection.ofName (some name) d =
        (.ok (.alone (.file p false true)), e.put p (.table f)) ∧
      (e.put p (.table f)).Leads name p ∧ f.table = some t := by
  obtain ⟨e, hmade, hplace⟩ := hd
  obtain ⟨f, hf, hft⟩ : ∃ f, tableAt? e p .creating = some f ∧ f.table.getD .empty = t := by
    apply Disk.Stores.tableAt?
    rwa [Disk.Stores, Disk.files_makeParents hmade]
  refine ⟨e, f.toLogged.made.join, ?_, ?_, ?_⟩
  · have hpath : Location.filePath? { path := Bytes.ofString name } =
        some (Bytes.ofString name) := by
      simp [Location.filePath?, hn.inFile]
    have hopen : openFile { path := Bytes.ofString name } p e =
        (.ok (.file p false true), e.put p (.table f.toLogged.made.join)) := by
      simp [openFile, hf, openWritable, Nat.not_lt.mpr hn.short, Location.isLogging,
        Location.needsLog]
    simp only [ofName, hmade, hn.isPath, ofLocation, sharedName?, openSource, hpath, hplace, hopen]
    rfl
  · exact (Disk.leads_of_made hmade hplace).agrees (e.agreesBut_put p _)
  · simp [TableFile.made, TableFile.toLogged, hft]

namespace DurableStore

inductive Loss
  | dropped
  | forgotten
  | killed

def lose (s : DurableStore) (d : Disk) : Loss → Disk
  | .dropped => (s.close d).2
  | .forgotten => d
  | .killed => d.crash

structure Keeps (s : DurableStore) (d : Disk) (name : String) (p : Path) (isOpen : Bool)
    (t : Table) : Prop where
  path : s.path = some name
  connection : s.connection = if isOpen then some (.alone (.file p false true)) else none
  leads : d.Leads name p
  stores : d.Stores p t
  made : isOpen = true → d.isFile p = true

section Keeps

variable {s : DurableStore} {d : Disk} {name : String} {p : Path} {isOpen : Bool} {t : Table}

theorem Keeps.isOpen_eq (h : s.Keeps d name p isOpen t) : s.isOpen = isOpen := by
  rw [DurableStore.isOpen, h.connection]
  cases isOpen <;> rfl

theorem Keeps.tableFile? (h : s.Keeps d name p true t) :
    ∃ f, d.tableFile? p = some f ∧ f.table = some t := by
  rcases h.stores with ⟨hnone, -⟩ | ⟨f, hf, ht⟩
  · have := h.made rfl
    simp [Disk.isFile, SortedMap.contains, hnone] at this
  · exact ⟨f, Disk.tableFile?_eq_some.mpr hf, ht⟩

theorem Keeps.table_eq (h : s.Keeps d name p isOpen t) :
    s.table d = if isOpen then .ok t else .error .closed := by
  rw [table, h.connection]
  cases isOpen with
  | false => rfl
  | true =>
    obtain ⟨f, hf, ht⟩ := h.tableFile?
    simp [Connection.table, Connection.source?, Source.table, hf, ht]

theorem Keeps.put {s' : DurableStore} {o : Bool} {f : TableFile} {u : Table}
    (h : s.Keeps d name p isOpen t) (hp : s'.path = s.path)
    (hc : s'.connection = if o then some (.alone (.file p false true)) else none)
    (hf : f.table = some u) : s'.Keeps (d.put p (.table f)) name p o u where
  path := hp.trans h.path
  connection := hc
  leads := h.leads.agrees (d.agreesBut_put p _)
  stores := .put d p hf
  made _ := by simp [Disk.isFile, Disk.put, SortedMap.contains]

theorem Keeps.openOn (hn : NamesFile name p) (h : s.Keeps d name p isOpen t) :
    ∃ s' d', s.openOn d = (.ok (), s', d') ∧ s'.Keeps d' name p true t := by
  cases isOpen with
  | true => exact ⟨s, d, by simp [DurableStore.openOn, h.isOpen_eq], h⟩
  | false =>
    obtain ⟨e, f, hopen, hl, hf⟩ := Connection.ofName_file hn h.leads h.stores
    refine ⟨{ s with connection := some (.alone (.file p false true)) }, e.put p (.table f), ?_,
      h.path, rfl, hl, .put e p hf, fun _ => ?_⟩
    · simp [DurableStore.openOn, h.isOpen_eq, h.path, hopen]
    · simp [Disk.isFile, Disk.put, SortedMap.contains]

theorem Keeps.close (h : s.Keeps d name p isOpen t) :
    (s.close d).1.Keeps (s.close d).2 name p false t := by
  cases isOpen with
  | false =>
    have hc : s.connection = none := h.connection
    simpa only [DurableStore.close, hc] using h
  | true =>
    obtain ⟨f, hf, ht⟩ := h.tableFile?
    have hc : s.connection = some (.alone (.file p false true)) := h.connection
    have hclose : s.close d =
        ({ s with connection := none }, d.put p (.table (f.leave false))) := by
      simp [DurableStore.close, hc, Connection.close, Source.close, Disk.changeTable, hf]
    rw [hclose]
    exact h.put rfl rfl (by simpa using ht)

theorem Keeps.writeBatch (h : s.Keeps d name p true t) (b : Batch) :
    ∃ d', s.writeBatch d b = (.ok (), s, d') ∧ s.Keeps d' name p true (t.writeAll b) := by
  rcases eq_or_ne b [] with rfl | hb
  · exact ⟨d, by simp [DurableStore.writeBatch, h.table_eq], h⟩
  obtain ⟨f, hf, ht⟩ := h.tableFile?
  have hc : s.connection = some (.alone (.file p false true)) := h.connection
  refine ⟨d.put p (.table (f.write (t.writeAll b))), ?_, h.put rfl h.connection rfl⟩
  have hwritable : s.isReadOnly d = false := by
    simp [isReadOnly, hc, Connection.isReadOnly, Connection.source?, Source.isReadOnly]
  have hset : s.setTable d (t.writeAll b) =
      (s, d.put p (.table (f.write (t.writeAll b)))) := by
    cases s
    cases hc
    simp [setTable, Connection.setTable, Source.setTable, Disk.changeTable, hf]
  simp [DurableStore.writeBatch, h.table_eq, hwritable, hset, hb]

theorem Keeps.writeBatch_closed (h : s.Keeps d name p false t) (b : Batch) :
    s.writeBatch d b = (.error .closed, s, d) := by
  simp [DurableStore.writeBatch, h.table_eq]

theorem Keeps.crash (h : s.Keeps d name p isOpen t) :
    d.crash.Leads name p ∧ d.crash.Stores p t := by
  have hfiles (q : Path) : d.crash.files.get? q = (d.files.get? q).map FileContent.abandon :=
    SortedMap.get?_mapValues ..
  constructor
  · refine h.leads.agrees ⟨rfl, fun q _ => ?_⟩
    simp [Disk.isFile, SortedMap.contains, hfiles]
  · rw [Disk.Stores, hfiles]
    refine h.stores.imp ?_ ?_
    · rintro ⟨hnone, ht⟩
      exact ⟨by simp [hnone], ht⟩
    · rintro ⟨f, hf, ht⟩
      exact ⟨f.abandon, by simp [hf, FileContent.abandon], ht⟩

theorem Keeps.lose (h : s.Keeps d name p isOpen t) (how : Loss) (sync : Bool)
    (busyTimeoutMs : Nat) :
    Keeps ⟨s.path, sync, busyTimeoutMs, none⟩ (s.lose d how) name p false t := by
  have hleft : (s.lose d how).Leads name p ∧ (s.lose d how).Stores p t := by
    cases how with
    | dropped => exact ⟨h.close.leads, h.close.stores⟩
    | forgotten => exact ⟨h.leads, h.stores⟩
    | killed => exact h.crash
  exact ⟨h.path, rfl, hleft.1, hleft.2, by simp⟩

end Keeps

end DurableStore

end Staging
