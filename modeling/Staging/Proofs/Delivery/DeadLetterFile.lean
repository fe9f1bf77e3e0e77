import Mathlib
import Staging.Proofs.Disk
import Staging.Proofs.Delivery.DeadLetter

namespace Staging

namespace DeadLetterFile

open DeadLetter (ofText)

structure Holds (f : DeadLetterFile) (d : Disk) (c : Bytes) : Prop where
  parents : ∃ u, PathText.ofBytes? (PathText.parentOf (Bytes.ofString f.path)) = some u ∧
    d.Passable u.start u.names
  place : d.place? f.path = some f.place
  content : d.files.get? f.place = some (.bytes c)

variable {f : DeadLetterFile} {d d₁ : Disk} {c : Bytes}

theorem Holds.records_eq (h : f.Holds d c) : records f.path d = ofText c := by
  rw [records, Disk.read_of_find (Disk.place?_eq_some.mp h.place).1, h.content]

theorem Holds.reaches (h : f.Holds d c) : d.Reaches f.path f.place := ⟨h.parents, h.place⟩

theorem Holds.openOn_eq (h : f.Holds d c) : openOn f.path d = (.ok f, d) := by
  have hfile : d.isFile f.place = true := Disk.isFile_iff.mpr ⟨_, h.content⟩
  simp only [openOn, h.reaches.makeParents_eq, h.place, Disk.touch, hfile, if_true]

theorem Holds.put (h : f.Holds d c) (b : Bytes) : f.Holds (d.put f.place (.bytes b)) b :=
  have hput := h.reaches.put (.bytes b)
  ⟨hput.parents, hput.place, SortedMap.get?_insert_self _ _ _⟩

theorem Holds.append (h : f.Holds d c) (b : Bytes) : f.Holds (f.append d b) (c ++ b) := by
  rw [DeadLetterFile.append, h.content]
  exact h.put (c ++ b)

structure Opened (path : String) (f : DeadLetterFile) (d d₁ : Disk) : Prop where
  opens : f.path = path
  parents : ∃ u, PathText.ofBytes? (PathText.parentOf (Bytes.ofString path)) = some u ∧
    d₁.Passable u.start u.names
  find : d₁.find (Bytes.ofString path) = .ok f.place
  free : d₁.isDirectory f.place = false
  content : d₁.files.get? f.place = some ((d.files.get? f.place).getD (.bytes []))
  directories : ∀ q, d.isDirectory q = true → d₁.isDirectory q = true

theorem opened_of_openOn {path : String} (h : openOn path d = (.ok f, d₁)) :
    Opened path f d d₁ := by
  rw [openOn] at h
  split at h
  · cases h
  rename_i d' hmade
  split at h
  · cases h
  rename_i p hplace
  cases h
  obtain ⟨u, hu, halong⟩ := Disk.makeParents_eq_ok hmade
  obtain ⟨hfind, hfree⟩ := Disk.place?_eq_some.mp hplace
  have hfiles : d'.files = d.files := by
    have := Disk.files_makeAlong d u.start u.names
    rwa [halong] at this
  have hmade' : ∀ q, d.isDirectory q = true → d'.isDirectory q = true := by
    intro q hq
    have := Disk.isDirectory_makeAlong hq u.start u.names
    rwa [halong] at this
  refine ⟨rfl, ⟨u, hu, (Disk.passable_makeAlong halong).touch hfree⟩, ?_,
    (d'.isDirectory_touch p p).trans hfree, ?_, ?_⟩
  · exact Disk.find_of_directories (fun q hq => (d'.isDirectory_touch p q).trans hq) hfind
  · rw [Disk.get?_touch, hfiles]
  · exact fun q hq => (d'.isDirectory_touch p q).trans (hmade' q hq)

namespace Opened

variable {path : String}

theorem records_eq (h : Opened path f d d₁) :
    records path d₁ =
      match (d.files.get? f.place).getD (.bytes []) with
      | .bytes c => ofText c
      | .table _ => .error .io := by
  rw [records, Disk.read_of_find h.find, h.content]
  cases (d.files.get? f.place).getD (.bytes []) <;> rfl

theorem records_eq_of_find (h : Opened path f d d₁)
    (hfind : d.find (Bytes.ofString path) = .ok f.place) : records path d₁ = records path d := by
  have hfree : d.isDirectory f.place = false := by
    rw [Bool.eq_false_iff]
    intro hdir
    have := (h.directories f.place hdir).symm.trans h.free
    contradiction
  rw [h.records_eq, records, Disk.read_of_find hfind]
  cases d.files.get? f.place with
  | none =>
    rw [hfree]
    rfl
  | some content => cases content <;> rfl

theorem holds (h : Opened path f d d₁) {rs : List DeadLetter} (hread : records path d₁ = .ok rs) :
    ∃ c, ofText c = .ok rs ∧ f.Holds d₁ c := by
  rw [h.records_eq] at hread
  have hcontent := h.content
  cases hget : (d.files.get? f.place).getD (.bytes []) with
  | table t =>
    rw [hget] at hread
    cases hread
  | bytes c =>
    rw [hget] at hread hcontent
    obtain rfl := h.opens
    exact ⟨c, hread, h.parents, Disk.place?_eq_some.mpr ⟨h.find, h.free⟩, hcontent⟩

end Opened

inductive Call
  | reopen
  | send (now : Instant) (destination : String) (e : Exchange)

def Call.record? : Call → Option DeadLetter
  | reopen => none
  | send now destination e => (DeadLetter.ofExchange destination e now).toOption

def call (s : DeadLetterFile × Disk) : Call → DeadLetterFile × Disk
  | .reopen =>
    match openOn s.1.path s.2 with
    | (.ok f, d) => (f, d)
    | (.error _, d) => (s.1, d)
  | .send now destination e => (s.1, (s.1.send now destination e s.2).2)

def run (s : DeadLetterFile × Disk) (calls : List Call) : DeadLetterFile × Disk :=
  calls.foldl call s

def written (calls : List Call) : List DeadLetter := calls.filterMap Call.record?

theorem Holds.call (h : f.Holds d c) (x : Call) :
    ∃ d', DeadLetterFile.call (f, d) x = (f, d') ∧
      f.Holds d' (c ++ x.record?.toList.flatMap DeadLetter.line) := by
  cases x with
  | reopen =>
    refine ⟨d, ?_, by simpa [Call.record?] using h⟩
    simp only [DeadLetterFile.call, h.openOn_eq]
  | send now destination e =>
    refine ⟨_, rfl, ?_⟩
    rw [Call.record?, send]
    cases DeadLetter.ofExchange destination e now with
    | error err => simpa [Except.toOption] using h
    | ok r => simpa [Except.toOption] using h.append r.line

theorem Holds.run (h : f.Holds d c) (calls : List Call) :
    ∃ d', DeadLetterFile.run (f, d) calls = (f, d') ∧
      f.Holds d' (c ++ (written calls).flatMap DeadLetter.line) := by
  induction calls generalizing d c with
  | nil => exact ⟨d, rfl, by simpa [written] using h⟩
  | cons x calls ih =>
    obtain ⟨d', hcall, h'⟩ := h.call x
    obtain ⟨d'', hrun, h''⟩ := ih h'
    refine ⟨d'', by rw [DeadLetterFile.run, List.foldl_cons, hcall]; exact hrun, ?_⟩
    have hwritten : written (x :: calls) = x.record?.toList ++ written calls := by
      rw [written, List.filterMap_cons]
      cases x.record? <;> rfl
    rwa [hwritten, List.flatMap_append, ← List.append_assoc]

theorem exists_record_of_send {now : Instant} {destination : String} {e : Exchange}
    (h : (f.send now destination e d).1 = .ok ()) :
    ∃ r, (Call.send now destination e).record? = some r ∧ r.Records destination e now := by
  rw [send] at h
  split at h
  · cases h
  · rename_i r hr
    exact ⟨r, by rw [Call.record?, hr]; rfl, DeadLetter.records_of_ofExchange hr⟩

theorem records_after_calls {path : String} (h : openOn path d = (.ok f, d₁)) :
    (d.find (Bytes.ofString path) = .ok f.place → records path d₁ = records path d) ∧
    (d.files.get? f.place = none → records path d₁ = .ok []) ∧
    (∀ rs, records path d₁ = .ok rs →
      ∃ c, d₁.files.get? f.place = some (.bytes c) ∧ ∀ calls,
        records path (run (f, d₁) calls).2 =
          if written calls = [] ∨ ∀ x ∈ c.unfinished, Json.isSpace x = true then
            .ok (rs ++ written calls)
          else .error (.json .malformed)) ∧
    ∀ now destination e d', (f.send now destination e d').1 = .ok () →
      ∃ r, (Call.send now destination e).record? = some r ∧ r.Records destination e now := by
  have hopened := opened_of_openOn h
  refine ⟨hopened.records_eq_of_find, ?_, ?_, fun _ _ _ _ => exists_record_of_send⟩
  · intro hnone
    rw [hopened.records_eq, hnone]
    rfl
  · intro rs hread
    obtain ⟨c, hc, hholds⟩ := hopened.holds hread
    refine ⟨c, hholds.content, fun calls => ?_⟩
    obtain ⟨d', hrun, hholds'⟩ := hholds.run calls
    obtain rfl := hopened.opens
    rw [hrun, hholds'.records_eq, DeadLetter.ofText_append_lines hc]

namespace Torn

def record : DeadLetter := ⟨"x", "m", "", ""⟩

def disk : Disk := Disk.empty.put [Bytes.ofString "d.jsonl"] (.bytes record.toJson.compact)

def file : DeadLetterFile := ⟨"d.jsonl", [Bytes.ofString "d.jsonl"]⟩

def now : Instant := ⟨2024, 5, 6, 7, 8, 9, 0, by decide, by decide⟩

def exchange : Exchange := ⟨"n", now, .ofJson .null, .empty, .empty⟩

theorem records_after_calls_torn :
    openOn "d.jsonl" disk = (.ok file, disk) ∧ records "d.jsonl" disk = .ok [record] ∧
      (file.send now "x" exchange disk).1 = .ok () ∧
      records "d.jsonl" (run (file, disk) [.send now "x" exchange]).2 =
        .error (.json .malformed) := by
  have hopen : openOn "d.jsonl" disk = (.ok file, disk) := by decide +kernel
  have hread : records "d.jsonl" disk = .ok [record] := by decide +kernel
  have hsend : (file.send now "x" exchange disk).1 = .ok () := by decide +kernel
  refine ⟨hopen, hread, hsend, ?_⟩
  obtain ⟨-, -, hcalls, hwrites⟩ := records_after_calls hopen
  obtain ⟨c, hc, hafter⟩ := hcalls [record] hread
  obtain ⟨r, hr, -⟩ := hwrites now "x" exchange disk hsend
  have hcontent : disk.files.get? file.place = some (.bytes record.toJson.compact) := by
    decide +kernel
  obtain rfl : record.toJson.compact = c := by
    simpa using hcontent.symm.trans hc
  have hwritten : written [.send now "x" exchange] = [r] := by
    simp [written, hr]
  rw [hafter, if_neg]
  rw [hwritten, not_or]
  exact ⟨List.cons_ne_nil _ _, by decide +kernel⟩

end Torn

end DeadLetterFile

end Staging
