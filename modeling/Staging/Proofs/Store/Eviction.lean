import Mathlib
import Staging.Proofs.Store.Recency

/-!
What a store that drops its oldest entries holds. It follows a machine that knows its entries in the
order of their last writes: a write is done in full first, and of what it leaves the newest entries
are kept, as many as there is room for.
-/

namespace Staging

theorem List.rtake_append_of_le {α : Type} {l r : List α} {n : Nat} (h : r.length ≤ n) :
    (l ++ r).rtake n = l.rtake (n - r.length) ++ r := by
  have hsub : (l ++ r).length - n = l.length - (n - r.length) := by
    rw [List.length_append]
    omega
  rw [List.rtake, List.rtake, hsub, List.drop_append_of_le_length (Nat.sub_le _ _)]

theorem List.getLast?_rtake {α : Type} (l : List α) {n : Nat} (h : 0 < n) :
    (l.rtake n).getLast? = l.getLast? := by
  induction l using List.reverseRecOn with
  | nil => rw [List.rtake_nil]
  | append_singleton l a _ =>
    rw [List.rtake_append_of_le (r := [a]) h, List.getLast?_concat, List.getLast?_concat]

namespace Batch

def last? (b : Batch) (key : Bytes) : Option WriteOp := b.reverse.find? (·.key = key)

def putKeys (b : Batch) : List Bytes :=
  b.filterMap fun
    | .put key _ => some key
    | .delete _ => none

theorem last?_concat (b : Batch) (op : WriteOp) (key : Bytes) :
    last? (b ++ [op]) key = if op.key = key then some op else b.last? key := by
  by_cases h : op.key = key <;> simp [last?, h]

theorem last?_eq_none {b : Batch} {key : Bytes} : b.last? key = none ↔ ∀ op ∈ b, op.key ≠ key := by
  simp [last?]

theorem mem_of_last? {b : Batch} {key : Bytes} {op : WriteOp} (h : b.last? key = some op) :
    op ∈ b :=
  List.mem_reverse.mp (List.mem_of_find?_eq_some h)

theorem mem_putKeys {b : Batch} {key value : Bytes} (h : .put key value ∈ b) : key ∈ b.putKeys :=
  List.mem_filterMap.mpr ⟨_, h, rfl⟩

end Batch

namespace Recency

variable {l : Recency} {b : Batch}

def Distinct (l : Recency) : Prop := l.Pairwise fun p q => p.1 ≠ q.1

theorem Distinct.nodup (h : l.Distinct) : (l.map (·.1)).Nodup := List.pairwise_map.mpr h

theorem writeAll_concat (l : Recency) (b : Batch) (op : WriteOp) :
    l.writeAll (b ++ [op]) = (l.writeAll b).write op :=
  List.foldl_concat ..

theorem mem_without {key : Bytes} {p : Entry} : p ∈ l.without key ↔ p ∈ l ∧ p.1 ≠ key := by
  rw [without, List.mem_filter, decide_eq_true_iff]

theorem without_append (l r : Recency) (key : Bytes) :
    Recency.without (l ++ r) key = l.without key ++ r.without key :=
  List.filter_append ..

theorem without_comm (l : Recency) (j k : Bytes) :
    (l.without j).without k = (l.without k).without j := by
  rw [without, without, without, without, List.filter_filter, List.filter_filter]
  exact List.filter_congr fun p _ => Bool.and_comm ..

theorem without_of_forall {key : Bytes} (h : ∀ p ∈ l, p.1 ≠ key) : l.without key = l :=
  List.filter_eq_self.mpr fun p hp => decide_eq_true (h p hp)

theorem without_without (l : Recency) (key : Bytes) :
    (l.without key).without key = l.without key :=
  without_of_forall fun _ hp => (mem_without.mp hp).2

theorem mem_write {op : WriteOp} {p : Entry} :
    p ∈ l.write op ↔ op = .put p.1 p.2 ∨ op.key ≠ p.1 ∧ p ∈ l := by
  obtain ⟨k, v⟩ := p
  cases op with
  | put key value =>
    rw [write, List.mem_append, mem_without, List.mem_singleton]
    constructor
    · rintro (⟨hp, hne⟩ | he)
      · exact Or.inr ⟨Ne.symm hne, hp⟩
      · cases he
        exact Or.inl rfl
    · rintro (he | ⟨hne, hp⟩)
      · cases he
        exact Or.inr rfl
      · exact Or.inl ⟨hp, Ne.symm hne⟩
  | delete key =>
    rw [write, mem_without]
    constructor
    · rintro ⟨hp, hne⟩
      exact Or.inr ⟨Ne.symm hne, hp⟩
    · rintro (he | ⟨hne, hp⟩)
      · cases he
      · exact ⟨hp, Ne.symm hne⟩

theorem mem_writeAll {p : Entry} :
    p ∈ l.writeAll b ↔
      b.last? p.1 = some (.put p.1 p.2) ∨ b.last? p.1 = none ∧ p ∈ l := by
  induction b using List.reverseRecOn with
  | nil => simp [writeAll, Batch.last?]
  | append_singleton b op ih =>
    rw [writeAll_concat, mem_write, Batch.last?_concat, ih]
    by_cases h : op.key = p.1
    · simp [h]
    · have hne : op ≠ .put p.1 p.2 := by
        rintro rfl
        exact h rfl
      simp [h, hne]

theorem Distinct.without (h : l.Distinct) (key : Bytes) : (l.without key).Distinct := h.filter _

theorem Distinct.write (h : l.Distinct) (op : WriteOp) : (l.write op).Distinct := by
  cases op with
  | put key value =>
    refine List.pairwise_append.mpr ⟨h.without key, List.pairwise_singleton _ _, ?_⟩
    intro p hp q hq
    rw [List.mem_singleton.mp hq]
    exact of_decide_eq_true (List.mem_filter.mp hp).2
  | delete key => exact h.without key

theorem Distinct.writeAll (h : l.Distinct) (b : Batch) : (l.writeAll b).Distinct := by
  induction b generalizing l with
  | nil => exact h
  | cons op b ih => exact ih (h.write op)

theorem write_append (l r : Recency) (op : WriteOp) :
    Recency.write (l ++ r) op = l.without op.key ++ r.write op := by
  cases op with
  | put key value => rw [write, write, without_append, List.append_assoc, WriteOp.key]
  | delete key => exact without_append l r key

theorem writeAll_eq_append (l : Recency) (b : Batch) :
    l.writeAll b = l.filter (fun p => b.last? p.1 = none) ++ writeAll [] b := by
  induction b using List.reverseRecOn with
  | nil => simp [writeAll, Batch.last?]
  | append_singleton b op ih =>
    rw [writeAll_concat, writeAll_concat, ih, write_append, without, List.filter_filter]
    congr 1
    refine List.filter_congr fun p _ => ?_
    rw [Batch.last?_concat]
    by_cases h : op.key = p.1
    · simp [h]
    · simp [h, Ne.symm h]

theorem length_le_of_keys_subset {r : Recency} {keys : List Bytes} (hr : r.Distinct)
    (h : ∀ p ∈ r, p.1 ∈ keys) : r.length ≤ keys.length := by
  have hsub : r.map (·.1) ⊆ keys := by
    intro key hkey
    obtain ⟨p, hp, rfl⟩ := List.mem_map.mp hkey
    exact h p hp
  simpa using (List.subperm_of_subset hr.nodup hsub).length_le

theorem length_written_le (b : Batch) : (writeAll [] b).length ≤ b.putKeys.dedup.length := by
  have hempty : Distinct [] := List.Pairwise.nil
  refine length_le_of_keys_subset (hempty.writeAll b) fun p hp => ?_
  rcases mem_writeAll.mp hp with hput | ⟨-, hnil⟩
  · exact List.mem_dedup.mpr (Batch.mem_putKeys (Batch.mem_of_last? hput))
  · exact absurd hnil List.not_mem_nil

theorem without_write_self (l : Recency) (op : WriteOp) :
    (l.write op).without op.key = l.without op.key := by
  cases op with
  | put key value =>
    have hnew : Recency.without [(key, value)] key = [] := by simp [without]
    rw [write, WriteOp.key, without_append, without_without, hnew, List.append_nil]
  | delete key => exact l.without_without key

theorem without_write_of_ne (l : Recency) {op : WriteOp} {key : Bytes} (h : op.key ≠ key) :
    (l.write op).without key = (l.without key).write op := by
  cases op with
  | put k v =>
    have hnew : Recency.without [(k, v)] key = [(k, v)] := by
      refine without_of_forall fun p hp => ?_
      rw [List.mem_singleton.mp hp]
      exact h
    rw [write, write, without_append, without_comm, hnew]
  | delete k => exact l.without_comm k key

theorem without_writeAll (l : Recency) (b : Batch) (key : Bytes) :
    (l.writeAll b).without key = (l.without key).writeAll (b.filter (·.key ≠ key)) := by
  induction b generalizing l with
  | nil => rfl
  | cons op b ih =>
    refine (ih (l.write op)).trans ?_
    by_cases h : op.key = key
    · subst h
      rw [without_write_self, List.filter_cons_of_neg (by simp)]
    · rw [l.without_write_of_ne h, List.filter_cons_of_pos (by simpa using h)]
      rfl

structure KeepsNewest (capacity : Nat) (old : Recency) (b : Batch) (new : Recency) : Prop where
  all : (old.writeAll b).length ≤ capacity → new = old.writeAll b
  newest : capacity < (old.writeAll b).length → new.length = capacity ∧ new <:+ old.writeAll b
  last : new.getLast? = (old.writeAll b).getLast?
  visible : b.putKeys.dedup.length ≤ capacity → ∀ op ∈ b, ∀ v,
    (op.key, v) ∈ new ↔ b.last? op.key = some (.put op.key v)
  passing : ∀ key, b.last? key = some (.delete key) →
    new = ((old.without key).writeAll (b.filter (·.key ≠ key))).rtake capacity
  nothingAdded : (∀ key ∈ b.putKeys, key ∈ old.map (·.1) ∨ b.last? key = some (.delete key)) →
    new = old.writeAll b

theorem visible_rtake {capacity : Nat} (hb : b.putKeys.dedup.length ≤ capacity) {op : WriteOp}
    (hop : op ∈ b) (v : Bytes) :
    (op.key, v) ∈ (l.writeAll b).rtake capacity ↔ b.last? op.key = some (.put op.key v) := by
  have htouched : b.last? op.key ≠ none := fun h => Batch.last?_eq_none.mp h op hop rfl
  rw [writeAll_eq_append, List.rtake_append_of_le ((length_written_le b).trans hb),
    List.mem_append]
  constructor
  · rintro (hold | hwritten)
    · have huntouched := (List.mem_filter.mp (List.mem_of_mem_drop hold)).2
      exact absurd (of_decide_eq_true huntouched) htouched
    · exact (mem_writeAll.mp hwritten).resolve_right fun h => htouched h.1
  · intro hput
    exact Or.inr (mem_writeAll.mpr (Or.inl hput))

theorem writeAll_of_passing {key : Bytes} (h : b.last? key = some (.delete key)) :
    l.writeAll b = (l.without key).writeAll (b.filter (·.key ≠ key)) := by
  rw [← without_writeAll]
  refine (without_of_forall fun p hp => ?_).symm
  rintro rfl
  rcases mem_writeAll.mp hp with hput | ⟨hnone, -⟩
  · simp [h] at hput
  · simp [h] at hnone

theorem length_writeAll_le (hl : l.Distinct)
    (h : ∀ key ∈ b.putKeys, key ∈ l.map (·.1) ∨ b.last? key = some (.delete key)) :
    (l.writeAll b).length ≤ l.length := by
  rw [← l.length_map (·.1)]
  refine length_le_of_keys_subset (hl.writeAll b) fun p hp => ?_
  rcases mem_writeAll.mp hp with hput | ⟨-, hold⟩
  · rcases h p.1 (Batch.mem_putKeys (Batch.mem_of_last? hput)) with hthere | hgone
    · exact hthere
    · simp [hput] at hgone
  · exact List.mem_map_of_mem hold

theorem keepsNewest_rtake {capacity : Nat} (hpos : 0 < capacity) (hl : l.Distinct)
    (hlength : l.length ≤ capacity) (b : Batch) :
    KeepsNewest capacity l b ((l.writeAll b).rtake capacity) where
  all := List.rtake_of_length_le
  newest h := ⟨by rw [List.length_rtake]; omega, List.drop_suffix _ _⟩
  last := List.getLast?_rtake _ hpos
  visible hb op hop v := visible_rtake hb hop v
  passing key h := by rw [writeAll_of_passing h]
  nothingAdded h := List.rtake_of_length_le ((length_writeAll_le hl h).trans hlength)

end Recency

structure RecentStore where
  isOpen : Bool
  entries : Recency
deriving DecidableEq

namespace RecentStore

def new : RecentStore := ⟨false, []⟩

def change (capacity : Nat) (x : RecentStore) (b : Batch) : RecentStore :=
  if x.isOpen then { x with entries := (x.entries.writeAll b).rtake capacity } else x

def next (capacity : Nat) (x : RecentStore) : Shelf.Request → RecentStore
  | .openStore => { x with isOpen := true }
  | .closeStore => { x with isOpen := false }
  | .put key value => x.change capacity [.put key value]
  | .delete key => x.change capacity [.delete key]
  | .batch b => x.change capacity b
  | .isOpen | .get _ | .page _ _ _ => x

def nextAll (capacity : Nat) (x : RecentStore) (qs : List Shelf.Request) : RecentStore :=
  qs.foldl (next capacity) x

end RecentStore

def Shelf.Request.batch? : Shelf.Request → Option Batch
  | put key value => some [.put key value]
  | delete key => some [.delete key]
  | batch b => some b
  | _ => none

def Shelf.Request.isRead : Shelf.Request → Bool
  | isOpen | get _ | page _ _ _ => true
  | _ => false

namespace MemoryStore

structure Tracks (m : MemoryStore) (x : RecentStore) : Prop where
  isOpen : m.isOpen = x.isOpen
  recency : m.contents.recency = x.entries

variable {m : MemoryStore} {x : RecentStore} {bound : Bound}

theorem accept_of_oldest (hb : m.bound = some bound) (he : bound.eviction = .oldest) (n : Nat) :
    m.accept n = .ok () := by
  obtain ⟨capacity, hpos, eviction⟩ := bound
  obtain rfl : eviction = .oldest := he
  simp only [accept, hb]

theorem receive_of_oldest (hb : m.bound = some bound) (he : bound.eviction = .oldest)
    (ho : m.isOpen = true) (projected : Nat) (c : Contents) :
    m.receive projected c = (.ok (), { m with contents := c.shrinkTo bound.capacity }) := by
  simp only [receive, if_pos ho, m.accept_of_oldest hb he, shrink, hb]

theorem receive_of_closed (ho : m.isOpen = false) (projected : Nat) (c : Contents) :
    m.receive projected c = (.error .closed, m) := by
  rw [receive, if_neg (by simp [ho])]

theorem InOrder.distinct (h : m.InOrder) : m.contents.recency.Distinct :=
  h.wellFormed.pairwise_recency

theorem InOrder.length_le (h : m.InOrder) (hb : m.bound = some bound) :
    m.contents.recency.length ≤ bound.capacity :=
  h.wellFormed.length_recency.trans_le (h.size_le bound hb)

theorem Tracks.receive (h : m.Tracks x) (hb : m.bound = some bound) (he : bound.eviction = .oldest)
    (projected : Nat) {c : Contents} (hc : c.WellFormed) {b : Batch}
    (hrecency : c.recency = x.entries.writeAll b) :
    (m.receive projected c).2.Tracks (x.change bound.capacity b) := by
  cases ho : x.isOpen with
  | true =>
    rw [receive_of_oldest hb he (h.isOpen.trans ho), RecentStore.change, if_pos ho]
    exact ⟨h.isOpen, (hc.shrinkTo bound.capacity).2.trans (by rw [hrecency])⟩
  | false =>
    rw [receive_of_closed (h.isOpen.trans ho), RecentStore.change, if_neg (by simp [ho])]
    exact h

theorem Tracks.delete (h : m.Tracks x) (ho : m.InOrder) (hb : m.bound = some bound) (key : Bytes) :
    (m.delete key).2.Tracks (x.change bound.capacity [.delete key]) := by
  cases hopen : x.isOpen with
  | true =>
    rw [MemoryStore.delete, if_pos (h.isOpen.trans hopen), RecentStore.change, if_pos hopen]
    refine ⟨h.isOpen, (ho.wellFormed.recency_remove key).trans ?_⟩
    have hle : (m.contents.recency.without key).length ≤ bound.capacity :=
      (List.length_filter_le _ _).trans (ho.length_le hb)
    rw [← h.recency]
    exact (List.rtake_of_length_le hle).symm
  | false =>
    rw [MemoryStore.delete, if_neg (by simp [h.isOpen, hopen]), RecentStore.change,
      if_neg (by simp [hopen])]
    exact h

theorem Tracks.after (h : m.Tracks x) (ho : m.InOrder) (hb : m.bound = some bound)
    (he : bound.eviction = .oldest) (q : Shelf.Request) :
    (m.after q).Tracks (x.next bound.capacity q) := by
  cases q with
  | openStore => exact ⟨rfl, h.recency⟩
  | closeStore => exact ⟨rfl, h.recency⟩
  | put key value =>
    apply h.receive hb he _ (ho.wellFormed.insert key value)
    rw [ho.wellFormed.recency_insert, h.recency]
    rfl
  | delete key => exact h.delete ho hb key
  | batch b =>
    obtain ⟨hw, hrecency⟩ := ho.wellFormed.writeAll b
    apply h.receive hb he _ hw
    rw [hrecency, h.recency]
  | isOpen | get _ | page _ _ _ => exact h

theorem Tracks.afterAll (h : m.Tracks x) (ho : m.InOrder) (hb : m.bound = some bound)
    (he : bound.eviction = .oldest) (qs : List Shelf.Request) :
    (m.afterAll qs).Tracks (x.nextAll bound.capacity qs) := by
  induction qs generalizing m x with
  | nil => exact h
  | cons q qs ih => exact ih (h.after ho hb he q) (ho.after q) ((m.bound_after q).trans hb)

theorem after_of_isRead {q : Shelf.Request} (h : q.isRead = true) (m : MemoryStore) :
    m.after q = m := by
  cases q <;> first | rfl | cases h

theorem afterAll_writes (m : MemoryStore) (qs : List Shelf.Request) :
    m.afterAll (qs.filter (!·.isRead)) = m.afterAll qs := by
  induction qs generalizing m with
  | nil => rfl
  | cons q qs ih =>
    cases h : q.isRead with
    | true =>
      rw [List.filter_cons_of_neg (by simp [h]), ih]
      exact congrArg (·.afterAll qs) (after_of_isRead h m).symm
    | false =>
      rw [List.filter_cons_of_pos (by simp [h])]
      exact ih (m.after q)

end MemoryStore

namespace Shelf

structure Shows (s : Shelf) (x : RecentStore) : Prop where
  entries : x.entries.Perm s.entries
  order : ∃ m, s.backend = .memory m ∧ m.Tracks x

variable {s : Shelf} {m : MemoryStore} {x : RecentStore} {bound : Bound}

theorem IsMemory.shows (h : s.IsMemory m) (ho : m.InOrder) (ht : m.Tracks x) : s.Shows x where
  entries := by
    rw [← ht.recency, Shelf.entries, h.backend]
    exact ho.wellFormed.recency_perm
  order := ⟨m, h.backend, ht⟩

theorem IsMemory.reply_of_oldest (h : s.IsMemory m) (hb : m.bound = some bound)
    (he : bound.eviction = .oldest) (ho : m.isOpen = true) {q : Request} {b : Batch}
    (hq : q.batch? = some b) : (s.serve q).1 = .done (.ok ()) := by
  cases q with
  | put key value =>
    refine congrArg Reply.done ((h.change .put _ _).1.trans ?_)
    rw [MemoryStore.put_eq, MemoryStore.receive_of_oldest hb he ho]
  | delete key =>
    refine congrArg Reply.done ((h.change .delete _ _).1.trans ?_)
    rw [MemoryStore.delete, if_pos ho]
  | batch b =>
    refine congrArg Reply.done ((h.change .batch _ _).1.trans ?_)
    rw [MemoryStore.writeBatch_eq, MemoryStore.receive_of_oldest hb he ho]
  | openStore | closeStore | isOpen | get _ | page _ _ _ => cases hq

end Shelf

theorem RecentStore.next_of_batch? {q : Shelf.Request} {b : Batch} (h : q.batch? = some b)
    (capacity : Nat) (x : RecentStore) : x.next capacity q = x.change capacity b := by
  cases q <;> cases h <;> rfl

theorem Shelf.serveAll_keepsNewest {bound : Bound} (he : bound.eviction = .oldest) (disk : Disk)
    (qs : List Request) :
    let start : Shelf := ⟨.memory (.bounded bound), disk, .none⟩
    let s := start.serveAll qs
    let x := RecentStore.new.nextAll bound.capacity qs
    s.Shows x ∧
      (∀ q b, q.batch? = some b → x.isOpen = true →
        (s.serve q).1 = .done (.ok ()) ∧ (s.serve q).2.Shows (x.next bound.capacity q) ∧
          x.entries.KeepsNewest bound.capacity b (x.next bound.capacity q).entries) ∧
      (start.serveAll (qs.filter (!·.isRead))).backend = s.backend := by
  intro start s x
  have hstart : start.IsMemory (.bounded bound) := ⟨rfl, fun _ _ => rfl⟩
  have hs := hstart.serveAll qs
  obtain ⟨ho, hb⟩ := (MemoryStore.inOrder_bounded bound).afterAll qs
  have hx : ((MemoryStore.bounded bound).afterAll qs).Tracks x :=
    MemoryStore.Tracks.afterAll ⟨rfl, rfl⟩ (MemoryStore.inOrder_bounded bound) rfl he qs
  refine ⟨hs.shows ho hx, fun q b hq hopen => ⟨?_, ?_, ?_⟩, ?_⟩
  · exact hs.reply_of_oldest hb he (hx.isOpen.trans hopen) hq
  · exact (hs.serve q).shows (ho.after q) (hx.after ho hb he q)
  · rw [RecentStore.next_of_batch? hq, RecentStore.change, if_pos hopen]
    exact Recency.keepsNewest_rtake bound.positive (hx.recency ▸ ho.distinct)
      (hx.recency ▸ ho.length_le hb) b
  · rw [(hstart.serveAll _).backend, hs.backend, MemoryStore.afterAll_writes]

theorem Shelf.serveAll_keepsNewest_rewritten :
    let bound : Bound := ⟨2, Nat.two_pos, .oldest⟩
    let s : Shelf := serveAll ⟨.memory (.bounded bound), .empty, .none⟩
      [.openStore, .put [1] [1], .put [2] [2], .put [1] [3], .get [2]]
    let b : Batch := [.put [3] [4], .put [4] [5], .delete [3], .delete [1]]
    bound.eviction = .oldest ∧ s.Shows ⟨true, [([2], [2]), ([1], [3])]⟩ ∧
      (s.serve (.put [3] [4])).2.Shows ⟨true, [([1], [3]), ([3], [4])]⟩ ∧
      (s.serve (.batch b)).2.Shows ⟨true, [([2], [2]), ([4], [5])]⟩ := by
  intro bound s b
  obtain ⟨hs, hwrite, -⟩ := serveAll_keepsNewest (show bound.eviction = .oldest from rfl) .empty
    [.openStore, .put [1] [1], .put [2] [2], .put [1] [3], .get [2]]
  have hx : RecentStore.new.nextAll bound.capacity
      [.openStore, .put [1] [1], .put [2] [2], .put [1] [3], .get [2]] =
      ⟨true, [([2], [2]), ([1], [3])]⟩ := by decide +kernel
  have hput : RecentStore.next bound.capacity ⟨true, [([2], [2]), ([1], [3])]⟩ (.put [3] [4]) =
      ⟨true, [([1], [3]), ([3], [4])]⟩ := by decide +kernel
  have hbatch : RecentStore.next bound.capacity ⟨true, [([2], [2]), ([1], [3])]⟩ (.batch b) =
      ⟨true, [([2], [2]), ([4], [5])]⟩ := by decide +kernel
  rw [hx] at hs hwrite
  exact ⟨rfl, hs, hput ▸ (hwrite _ _ rfl rfl).2.1, hbatch ▸ (hwrite _ _ rfl rfl).2.1⟩

end Staging
