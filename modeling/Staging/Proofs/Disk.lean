import Mathlib
import Staging.Store.Connection
import Staging.Proofs.SortedMap

namespace Staging

theorem not_mem_of_mem_splitOn {α : Type} [BEq α] [LawfulBEq α] {x : α} {l m : List α}
    (h : m ∈ l.splitOn x) : x ∉ m := by
  induction l generalizing m with
  | nil =>
    rw [List.splitOn_nil, List.mem_singleton] at h
    simp [h]
  | cons a l ih =>
    rw [List.splitOn_cons_eq_if_modifyHead] at h
    by_cases ha : a = x
    · rw [if_pos (beq_iff_eq.mpr ha), List.mem_cons] at h
      rcases h with rfl | h
      · exact List.not_mem_nil
      · exact ih h
    · rw [if_neg (by simpa using ha)] at h
      obtain ⟨b, r, hbr⟩ := List.exists_cons_of_ne_nil (List.splitOn_ne_nil x l)
      rw [hbr] at h
      rcases List.mem_cons.mp h with rfl | h
      · rw [List.mem_cons, not_or]
        exact ⟨Ne.symm ha, ih (by simp [hbr])⟩
      · exact ih (by simp [hbr, h])

theorem intercalate_isPrefix {α : Type} {s : List α} {l m : List (List α)} (h : l <+: m) :
    s.intercalate l <+: s.intercalate m := by
  induction l generalizing m with
  | nil => exact List.nil_prefix
  | cons a l ih =>
    obtain ⟨m, rfl⟩ := h
    cases l with
    | nil =>
      cases m with
      | nil => exact List.prefix_rfl
      | cons b m => simp [List.intercalate_cons_cons]
    | cons b l =>
      rw [List.cons_append, List.cons_append, List.intercalate_cons_cons,
        List.intercalate_cons_cons]
      exact (List.prefix_append_right_inj _).mpr (ih (List.prefix_append _ m))

namespace Path

def isIdle (name : Bytes) : Bool := name = [] || name = here

def walk (p : Path) (names : List Bytes) : Path := names.foldl step p

theorem step_idle {name : Bytes} (h : isIdle name = true) (p : Path) : p.step name = p :=
  if_pos (by simpa [isIdle] using h)

theorem walk_concat (p : Path) (names : List Bytes) (name : Bytes) :
    p.walk (names ++ [name]) = (p.walk names).step name := by
  simp [walk]

end Path

namespace PathText

theorem trimNames_eq (l : List Bytes) : trimNames l = (l.reverse.dropWhile Path.isIdle).reverse :=
  rfl

theorem trimNames_concat_of_idle {name : Bytes} (h : Path.isIdle name = true) (l : List Bytes) :
    trimNames (l ++ [name]) = trimNames l := by
  rw [trimNames_eq, trimNames_eq, List.reverse_concat, List.dropWhile_cons_of_pos h]

theorem trimNames_concat {name : Bytes} (h : Path.isIdle name = false) (l : List Bytes) :
    trimNames (l ++ [name]) = l ++ [name] := by
  rw [trimNames_eq, List.reverse_concat, List.dropWhile_cons_of_neg (by simp [h])]
  simp

theorem trimNames_isPrefix (l : List Bytes) : trimNames l <+: l := by
  induction l using List.reverseRecOn with
  | nil => exact List.nil_prefix
  | append_singleton l name ih =>
    cases h : Path.isIdle name with
    | true =>
      rw [trimNames_concat_of_idle h]
      exact ih.trans (List.prefix_append l [name])
    | false => rw [trimNames_concat h]

theorem trimNames_append {name : Bytes} (h : Path.isIdle name = false) (l m : List Bytes) :
    trimNames (l ++ name :: m) = l ++ name :: trimNames m := by
  induction m using List.reverseRecOn with
  | nil => exact trimNames_concat h l
  | append_singleton m last ih =>
    rw [← List.cons_append, ← List.append_assoc]
    cases hl : Path.isIdle last with
    | true => rw [trimNames_concat_of_idle hl, trimNames_concat_of_idle hl, ih]
    | false =>
      rw [trimNames_concat hl, trimNames_concat hl]
      simp

theorem getLast?_trimNames {l : List Bytes} {name : Bytes}
    (h : (trimNames l).getLast? = some name) : Path.isIdle name = false := by
  induction l using List.reverseRecOn with
  | nil => simp [trimNames] at h
  | append_singleton l last ih =>
    cases hl : Path.isIdle last with
    | true => exact ih (by rwa [trimNames_concat_of_idle hl] at h)
    | false =>
      rw [trimNames_concat hl, List.getLast?_concat, Option.some.injEq] at h
      rwa [← h]

theorem prefix_dropLast {names pre post : List Bytes} {name : Bytes}
    (h : names = pre ++ name :: post) (hn : Path.isIdle name = false) :
    pre <+: (trimNames names).dropLast := by
  rw [h, trimNames_append hn, List.dropLast_append_of_ne_nil (List.cons_ne_nil _ _)]
  exact List.prefix_append _ _

theorem forall_walk_of_trimNames {P : Path → Prop} {p : Path} {l : List Bytes}
    (h : ∀ pre, pre <+: trimNames l → P (p.walk pre)) : ∀ pre, pre <+: l → P (p.walk pre) := by
  induction l using List.reverseRecOn with
  | nil => exact h
  | append_singleton l name ih =>
    cases hn : Path.isIdle name with
    | true =>
      rw [trimNames_concat_of_idle hn] at h
      intro pre hp
      rcases List.prefix_concat_iff.mp hp with rfl | hp
      · rw [Path.walk_concat, Path.step_idle hn]
        exact ih h l List.prefix_rfl
      · exact ih h pre hp
    | false => rwa [trimNames_concat hn] at h

def parentNames (names : List Bytes) : List Bytes := trimNames (trimNames names).dropLast

theorem parentNames_isPrefix (names : List Bytes) : parentNames names <+: names :=
  ((trimNames_isPrefix _).trans (List.dropLast_prefix _)).trans (trimNames_isPrefix names)

theorem ofBytes?_parentOf {b : Bytes} {t u : PathText} (ht : ofBytes? b = some t)
    (hu : ofBytes? (parentOf b) = some u) (hne : parentNames t.names ≠ []) :
    u.start = t.start ∧ u.names = parentNames t.names := by
  simp only [ofBytes?] at ht hu
  split at ht <;> try contradiction
  split at hu <;> try contradiction
  cases ht
  cases hu
  have hway := parentNames_isPrefix (namesOf b)
  have hslash : ∀ m ∈ parentNames (namesOf b), Ascii.slash ∉ m := fun m hm =>
    not_mem_of_mem_splitOn (hway.subset hm)
  have hsplit : (parentOf b).splitOn Ascii.slash = parentNames (namesOf b) :=
    List.splitOn_intercalate Ascii.slash hslash hne
  refine ⟨?_, hsplit⟩
  obtain ⟨r, hr⟩ : parentOf b <+: b := by
    have h := intercalate_isPrefix (s := [Ascii.slash]) hway
    rwa [namesOf, List.intercalate_splitOn] at h
  -- both texts begin with the same byte, unless the shorter one is empty
  cases hp : parentOf b with
  | nil =>
    rw [hp, List.splitOn_nil] at hsplit
    have hlast : Path.isIdle [] = false :=
      getLast?_trimNames (congrArg List.getLast? hsplit.symm)
    exact absurd hlast (by decide)
  | cons x l =>
    rw [← hr, hp]
    rfl

end PathText

namespace Disk

def Passable (d : Disk) (p : Path) (names : List Bytes) : Prop :=
  ∀ pre name, pre ++ [name] <+: names → Path.isTooLong name = false ∧
    d.isFile (p.walk (pre ++ [name])) = false ∧ d.isDirectory (p.walk (pre ++ [name])) = true

theorem passable_cons {d : Disk} {p : Path} {name : Bytes} {names : List Bytes} :
    d.Passable p (name :: names) ↔
      (Path.isTooLong name = false ∧ d.isFile (p.step name) = false ∧
        d.isDirectory (p.step name) = true) ∧ d.Passable (p.step name) names := by
  constructor
  · intro h
    refine ⟨h [] name (by simp), fun pre n hp => ?_⟩
    exact h (name :: pre) n (by simpa using hp)
  · rintro ⟨hname, hrest⟩ pre n hp
    cases pre with
    | nil =>
      obtain rfl : n = name := by simpa using hp
      exact hname
    | cons m pre =>
      obtain ⟨rfl, htail⟩ := List.cons_prefix_cons.mp hp
      exact hrest pre n htail

theorem makeAlong_of_passable {d : Disk} {p : Path} {names : List Bytes}
    (h : d.Passable p names) : d.makeAlong p names = (.ok (), d) := by
  induction names generalizing p with
  | nil => rfl
  | cons name names ih =>
    obtain ⟨⟨hlong, hfile, hdir⟩, hrest⟩ := passable_cons.mp h
    simp only [makeAlong, hlong, hfile, hdir, Bool.or_self, Bool.false_eq_true, if_false, if_true]
    exact ih hrest

theorem isDirectory_addDirectory (d : Disk) (p q : Path) :
    (d.addDirectory p).isDirectory q = (d.isDirectory q || q = p) := by
  by_cases h : q = p <;>
    simp [isDirectory, addDirectory, SortedMap.contains, SortedMap.get?_insert, h]

theorem files_makeAlong (d : Disk) (p : Path) (names : List Bytes) :
    (d.makeAlong p names).2.files = d.files := by
  induction names generalizing d p with
  | nil => rfl
  | cons name names ih =>
    simp only [makeAlong]
    split_ifs
    · rfl
    · exact ih d _
    · exact ih (d.addDirectory _) _

theorem isDirectory_makeAlong {d : Disk} {q : Path} (h : d.isDirectory q = true) (p : Path)
    (names : List Bytes) : (d.makeAlong p names).2.isDirectory q = true := by
  induction names generalizing d p with
  | nil => exact h
  | cons name names ih =>
    simp only [makeAlong]
    split_ifs
    · exact h
    · exact ih h _
    · exact ih (by simp [isDirectory_addDirectory, h]) _

theorem passable_makeAlong {d d' : Disk} {p : Path} {names : List Bytes}
    (h : d.makeAlong p names = (.ok (), d')) : d'.Passable p names := by
  induction names generalizing d p with
  | nil => simp [Passable]
  | cons name names ih =>
    have hfiles := files_makeAlong d p (name :: names)
    have hkept {e : Disk} (he : e.isDirectory (p.step name) = true)
        (h : e.makeAlong (p.step name) names = (.ok (), d')) :
        d'.isDirectory (p.step name) = true := by
      have := isDirectory_makeAlong he (p.step name) names
      rwa [h] at this
    rw [h] at hfiles
    simp only [makeAlong] at h
    by_cases hbad : (Path.isTooLong name || d.isFile (p.step name)) = true
    · simp [hbad] at h
    · rw [if_neg hbad] at h
      obtain ⟨hlong, hfile⟩ := Bool.or_eq_false_iff.mp (Bool.eq_false_iff.mpr hbad)
      have hfile' : d'.isFile (p.step name) = false := by rwa [isFile, hfiles]
      split_ifs at h with hdir
      · exact passable_cons.mpr ⟨⟨hlong, hfile', hkept hdir h⟩, ih h⟩
      · have hmade : (d.addDirectory (p.step name)).isDirectory (p.step name) = true := by
          simp [isDirectory_addDirectory]
        exact passable_cons.mpr ⟨⟨hlong, hfile', hkept hmade h⟩, ih h⟩

structure AgreesBut (d e : Disk) (p : Path) : Prop where
  directories : e.directories = d.directories
  files : ∀ q, q ≠ p → e.isFile q = d.isFile q

theorem AgreesBut.isDirectory {d e : Disk} {p : Path} (h : d.AgreesBut e p) (q : Path) :
    e.isDirectory q = d.isDirectory q := by
  simp only [Disk.isDirectory, h.directories]

theorem AgreesBut.addDirectory {d e : Disk} {p : Path} (h : d.AgreesBut e p) (q : Path) :
    (d.addDirectory q).AgreesBut (e.addDirectory q) p :=
  ⟨congrArg (·.insert q ()) h.directories, h.files⟩

theorem AgreesBut.makeAlong {d d' e : Disk} {p start : Path} {names : List Bytes}
    (h : d.AgreesBut e p) (hd : d.makeAlong start names = (.ok (), d'))
    (hp : d'.isDirectory p = false) :
    ∃ e', e.makeAlong start names = (.ok (), e') ∧ d'.AgreesBut e' p := by
  induction names generalizing d e start with
  | nil =>
    cases hd
    exact ⟨e, rfl, h⟩
  | cons name names ih =>
    have hdir := ((passable_cons.mp (passable_makeAlong hd)).1).2.2
    have hne : start.step name ≠ p := by
      rintro rfl
      simp [hp] at hdir
    simp only [Disk.makeAlong, h.files _ hne, h.isDirectory] at hd ⊢
    split_ifs at hd ⊢ with hbad hthere
    · cases hd
    · exact ih h hd
    · exact ih (h.addDirectory _) hd

theorem followPlainly?_congr {d e : Disk} {p : Path} {names : List Bytes}
    (h : ∀ pre name post, names = pre ++ name :: post → Path.isIdle name = false →
      e.isFile (p.walk pre) = d.isFile (p.walk pre)) :
    Connection.followPlainly? e p names = Connection.followPlainly? d p names := by
  induction names generalizing p with
  | nil => rfl
  | cons name names ih =>
    have hrest := ih (p := p.step name) fun pre n post hs hn =>
      h (name :: pre) n post (by rw [hs, List.cons_append]) hn
    have hhere : (name ∉ [[], Path.here, Path.above] && e.isFile p) =
        (name ∉ [[], Path.here, Path.above] && d.isFile p) := by
      cases hn : Path.isIdle name with
      | false => rw [show e.isFile p = d.isFile p from h [] name names rfl hn]
      | true =>
        have : name ∈ [[], Path.here, Path.above] := by
          simp only [Path.isIdle, Bool.or_eq_true, decide_eq_true_eq] at hn
          rcases hn with rfl | rfl <;> simp
        simp [this]
    simp only [Connection.followPlainly?, hhere, hrest]

theorem isDirectory_start {b : Bytes} {t : PathText} (ht : PathText.ofBytes? b = some t)
    (d : Disk) : d.isDirectory t.start = true := by
  simp only [PathText.ofBytes?] at ht
  split at ht <;> try contradiction
  cases ht
  dsimp only
  split_ifs <;> simp [isDirectory, Path.isUpward]

theorem isDirectory_onWay {d : Disk} {b : Bytes} {t u : PathText} {pre : List Bytes}
    (ht : PathText.ofBytes? b = some t) (hu : PathText.ofBytes? (PathText.parentOf b) = some u)
    (h : d.Passable u.start u.names) (hpre : pre <+: (PathText.trimNames t.names).dropLast) :
    d.isDirectory (t.start.walk pre) = true := by
  refine PathText.forall_walk_of_trimNames (P := (d.isDirectory · = true)) ?_ pre hpre
  intro pre hpre
  rcases List.eq_nil_or_concat pre with rfl | ⟨l, name, rfl⟩
  · exact isDirectory_start ht d
  · rw [List.concat_eq_append] at hpre ⊢
    have hparents : l ++ [name] <+: PathText.parentNames t.names := hpre
    have hne : PathText.parentNames t.names ≠ [] := by
      intro hnil
      simp [hnil] at hparents
    obtain ⟨hstart, hnames⟩ := PathText.ofBytes?_parentOf ht hu hne
    have hdir := (h l name (hnames ▸ hparents)).2.2
    rwa [hstart] at hdir

/-- Once its parents have been made, the name leads to this place for a file. -/
def Leads (d : Disk) (name : String) (p : Path) : Prop :=
  ∃ d', d.makeParents name = (.ok (), d') ∧
    Connection.place? d' (Bytes.ofString name) = some p

theorem isDirectory_of_place? {d : Disk} {b : Bytes} {p : Path}
    (h : Connection.place? d b = some p) : d.isDirectory p = false := by
  simp only [Connection.place?, Option.bind_eq_bind, Option.bind_eq_some_iff] at h
  obtain ⟨t, -, q, -, hq⟩ := h
  split at hq
  · rename_i hcond
    cases hq
    simpa using hcond.2.2
  · contradiction

theorem AgreesBut.place? {d e : Disk} {b : Bytes} {u : PathText} {p : Path} (h : d.AgreesBut e p)
    (hu : PathText.ofBytes? (PathText.parentOf b) = some u) (hpass : d.Passable u.start u.names)
    (hplace : Connection.place? d b = some p) : Connection.place? e b = some p := by
  have hfree := isDirectory_of_place? hplace
  simp only [Connection.place?, Option.bind_eq_bind, Option.bind_eq_some_iff] at hplace ⊢
  obtain ⟨t, ht, q, hfollow, hq⟩ := hplace
  have hsame : Connection.followPlainly? e t.start t.names =
      Connection.followPlainly? d t.start t.names := by
    apply followPlainly?_congr
    intro pre n post hs hn
    have hdir := isDirectory_onWay ht hu hpass (PathText.prefix_dropLast hs hn)
    apply h.files
    intro heq
    rw [heq, hfree] at hdir
    contradiction
  refine ⟨t, ht, q, hsame.trans hfollow, ?_⟩
  rwa [h.isDirectory, h.isDirectory]

theorem makeParents_eq_ok {d d' : Disk} {name : String} (h : d.makeParents name = (.ok (), d')) :
    ∃ u, PathText.ofBytes? (PathText.parentOf (Bytes.ofString name)) = some u ∧
      d.makeAlong u.start u.names = (.ok (), d') := by
  simp only [makeParents] at h
  split at h
  · rename_i u hu
    exact ⟨u, hu, h⟩
  · simp at h

theorem makeParents_of_makeAlong {d d' : Disk} {name : String} {u : PathText}
    (hu : PathText.ofBytes? (PathText.parentOf (Bytes.ofString name)) = some u)
    (h : d.makeAlong u.start u.names = (.ok (), d')) : d.makeParents name = (.ok (), d') := by
  simp only [makeParents, hu, h]

theorem Leads.agrees {d e : Disk} {name : String} {p : Path} (hd : d.Leads name p)
    (h : d.AgreesBut e p) : e.Leads name p := by
  obtain ⟨d', hmade, hplace⟩ := hd
  obtain ⟨u, hu, halong⟩ := makeParents_eq_ok hmade
  obtain ⟨e', halong', h'⟩ := h.makeAlong halong (isDirectory_of_place? hplace)
  exact ⟨e', makeParents_of_makeAlong hu halong', h'.place? hu (passable_makeAlong halong) hplace⟩

theorem leads_of_made {d d' : Disk} {name : String} {p : Path}
    (hmade : d.makeParents name = (.ok (), d'))
    (hplace : Connection.place? d' (Bytes.ofString name) = some p) : d'.Leads name p := by
  obtain ⟨u, hu, halong⟩ := makeParents_eq_ok hmade
  have hagain := makeAlong_of_passable (passable_makeAlong halong)
  exact ⟨d', makeParents_of_makeAlong hu hagain, hplace⟩

theorem agreesBut_put (d : Disk) (p : Path) (c : FileContent) : d.AgreesBut (d.put p c) p :=
  ⟨rfl, fun q hq => by simp [isFile, put, SortedMap.contains, SortedMap.get?_insert_of_ne _ hq]⟩

theorem follow_of_directories {d e : Disk}
    (h : ∀ q, d.isDirectory q = true → e.isDirectory q = true) {p q : Path} {names : List Bytes}
    (hf : d.follow p names = .ok q) : e.follow p names = .ok q := by
  induction names generalizing p with
  | nil => exact hf
  | cons name names ih =>
    rw [follow] at hf ⊢
    split_ifs at hf with hdir hlong
    rw [if_pos (h p hdir), if_neg hlong]
    exact ih hf

theorem find_of_directories {d e : Disk}
    (h : ∀ q, d.isDirectory q = true → e.isDirectory q = true) {b : Bytes} {q : Path}
    (hf : d.find b = .ok q) : e.find b = .ok q := by
  rw [find] at hf ⊢
  split at hf
  · split_ifs at hf with hb
    rw [if_neg hb]
    exact follow_of_directories h hf
  · cases hf

theorem place?_eq_some {d : Disk} {text : String} {p : Path} :
    d.place? text = some p ↔ d.find (Bytes.ofString text) = .ok p ∧ d.isDirectory p = false := by
  rw [place?]
  cases d.find (Bytes.ofString text) with
  | error e => simp
  | ok q =>
    simp only [Except.ok.injEq]
    split_ifs with hq
    · simp only [false_iff, not_and]
      rintro rfl
      simp [hq]
    · simp only [Option.some.injEq]
      constructor
      · rintro rfl
        exact ⟨rfl, by simpa using hq⟩
      · exact And.left

theorem read_of_find {d : Disk} {text : String} {p : Path}
    (h : d.find (Bytes.ofString text) = .ok p) :
    d.read text =
      match d.files.get? p with
      | some c => .ok c
      | none => .error (if d.isDirectory p then .refused else .notFound) := by
  rw [read, h]
  rfl

theorem isFile_iff {d : Disk} {p : Path} : d.isFile p = true ↔ ∃ c, d.files.get? p = some c :=
  SortedMap.contains_iff

theorem Passable.put {d : Disk} {p start : Path} {names : List Bytes}
    (h : d.Passable start names) (hp : d.isDirectory p = false) (c : FileContent) :
    (d.put p c).Passable start names := by
  intro pre name hpre
  obtain ⟨hlong, hfile, hdir⟩ := h pre name hpre
  have hne : start.walk (pre ++ [name]) ≠ p := by
    rintro rfl
    simp [hp] at hdir
  have hagrees := d.agreesBut_put p c
  exact ⟨hlong, by rw [hagrees.files _ hne, hfile], by rw [hagrees.isDirectory, hdir]⟩

theorem get?_touch (d : Disk) (p : Path) :
    (d.touch p).files.get? p = some ((d.files.get? p).getD (.bytes [])) := by
  rw [touch]
  split_ifs with hfile
  · obtain ⟨content, hget⟩ := isFile_iff.mp hfile
    rw [hget]
    rfl
  · have hnone : d.files.get? p = none := by
      rw [Option.eq_none_iff_forall_ne_some]
      exact fun content hget => hfile (isFile_iff.mpr ⟨content, hget⟩)
    rw [hnone]
    exact SortedMap.get?_insert_self _ _ _

theorem isDirectory_touch (d : Disk) (p q : Path) :
    (d.touch p).isDirectory q = d.isDirectory q := by
  rw [touch]
  split_ifs <;> rfl

theorem Passable.touch {d : Disk} {p start : Path} {names : List Bytes}
    (h : d.Passable start names) (hp : d.isDirectory p = false) :
    (d.touch p).Passable start names := by
  rw [Disk.touch]
  split_ifs
  · exact h
  · exact h.put hp _

structure Reaches (d : Disk) (name : String) (p : Path) : Prop where
  parents : ∃ u, PathText.ofBytes? (PathText.parentOf (Bytes.ofString name)) = some u ∧
    d.Passable u.start u.names
  place : d.place? name = some p

theorem reaches_of_made {d d' : Disk} {name : String} {p : Path}
    (hmade : d.makeParents name = (.ok (), d')) (hplace : d'.place? name = some p) :
    d'.Reaches name p := by
  obtain ⟨u, hu, halong⟩ := makeParents_eq_ok hmade
  exact ⟨⟨u, hu, passable_makeAlong halong⟩, hplace⟩

namespace Reaches

variable {d : Disk} {name : String} {p : Path}

theorem makeParents_eq (h : d.Reaches name p) : d.makeParents name = (.ok (), d) := by
  obtain ⟨u, hu, hpass⟩ := h.parents
  exact makeParents_of_makeAlong hu (makeAlong_of_passable hpass)

theorem put (h : d.Reaches name p) (c : FileContent) : (d.put p c).Reaches name p := by
  obtain ⟨u, hu, hpass⟩ := h.parents
  obtain ⟨hfind, hfree⟩ := place?_eq_some.mp h.place
  have hfind' : (d.put p c).find (Bytes.ofString name) = .ok p :=
    find_of_directories (fun q hq => ((d.agreesBut_put p c).isDirectory q).trans hq) hfind
  exact ⟨⟨u, hu, hpass.put hfree c⟩, place?_eq_some.mpr ⟨hfind', hfree⟩⟩

theorem write_eq (h : d.Reaches name p) (b : Bytes) :
    d.write name b = (.ok (), d.put p (.bytes b)) := by
  simp only [write, h.makeParents_eq, h.place]

end Reaches

theorem read_put {d : Disk} {name : String} {p : Path} {c : FileContent}
    (h : (d.put p c).Reaches name p) : (d.put p c).read name = .ok c := by
  have hcontent : (d.put p c).files.get? p = some c := SortedMap.get?_insert_self _ _ _
  rw [read_of_find (place?_eq_some.mp h.place).1, hcontent]

theorem put_put (d : Disk) (p : Path) (c : FileContent) : (d.put p c).put p c = d.put p c := by
  have hcontent : (d.put p c).files.get? p = some c := SortedMap.get?_insert_self _ _ _
  exact congrArg (fun files => { d with files }) (SortedMap.insert_of_get?_eq_some hcontent)

def Writable (d : Disk) (name : String) : Prop :=
  ∃ d' p, d.makeParents name = (.ok (), d') ∧ d'.place? name = some p

theorem write_of_writable {d : Disk} {name : String} (h : d.Writable name) (b : Bytes) :
    ∃ d', d.write name b = (.ok (), d') ∧ d'.read name = .ok (.bytes b) ∧
      d'.write name b = (.ok (), d') := by
  obtain ⟨d', p, hmade, hplace⟩ := h
  have hput := (reaches_of_made hmade hplace).put (.bytes b)
  refine ⟨d'.put p (.bytes b), ?_, read_put hput, ?_⟩
  · simp only [write, hmade, hplace]
  · rw [hput.write_eq, put_put]

theorem writable_of_write {d d' : Disk} {name : String} {b : Bytes}
    (h : d.write name b = (.ok (), d')) : d.Writable name := by
  unfold write at h
  split at h
  · cases h
  · rename_i m hmade
    split at h
    · rename_i p hplace
      exact ⟨m, p, hmade, hplace⟩
    · cases h

end Disk

end Staging
