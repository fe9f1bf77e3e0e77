import Mathlib
import Staging.Store.Shelf
import Staging.Proofs.Bytes
import Staging.Proofs.Store.Successor
import Staging.Proofs.Store.Holding

namespace Staging

section Ascending

variable {α : Type} {p : α → Bool} {l : List α}

theorem takeWhile_eq_filter (h : l.Pairwise (fun a b => p b = true → p a = true)) :
    l.takeWhile p = l.filter p := by
  induction l with
  | nil => rfl
  | cons a l ih =>
    obtain ⟨ha, hl⟩ := List.pairwise_cons.mp h
    by_cases hp : p a = true
    · rw [List.takeWhile_cons_of_pos hp, List.filter_cons_of_pos hp, ih hl]
    · have hnone : (a :: l).filter p = [] := by
        apply List.filter_eq_nil_iff.mpr
        intro b hb
        rcases List.mem_cons.mp hb with rfl | hb
        · exact hp
        · exact fun hpb => hp (ha b hb hpb)
      rw [List.takeWhile_cons_of_neg hp, hnone]

theorem dropWhile_eq_filter (h : l.Pairwise (fun a b => p b = true → p a = true)) :
    l.dropWhile p = l.filter (fun a => !p a) := by
  induction l with
  | nil => rfl
  | cons a l ih =>
    obtain ⟨ha, hl⟩ := List.pairwise_cons.mp h
    by_cases hp : p a = true
    · rw [List.dropWhile_cons_of_pos hp, List.filter_cons_of_neg (by simp [hp]), ih hl]
    · rw [List.dropWhile_cons_of_neg hp, eq_comm, List.filter_eq_self]
      intro b hb
      rcases List.mem_cons.mp hb with rfl | hb
      · simp [hp]
      · have : ¬ p b = true := fun hpb => hp (ha b hb hpb)
        simp [this]

theorem takeWhile_filter {q : α → Bool} (hpq : ∀ a, p a = true → q a = true)
    (h : l.Pairwise (fun a b => q b = true → q a = true)) :
    (l.filter q).takeWhile p = l.takeWhile p := by
  induction l with
  | nil => rfl
  | cons a l ih =>
    obtain ⟨ha, hl⟩ := List.pairwise_cons.mp h
    by_cases hq : q a = true
    · rw [List.filter_cons_of_pos hq, List.takeWhile_cons, List.takeWhile_cons, ih hl]
    · have hnone : (a :: l).filter q = [] := by
        apply List.filter_eq_nil_iff.mpr
        intro b hb
        rcases List.mem_cons.mp hb with rfl | hb
        · exact hq
        · exact fun hqb => hq (ha b hb hqb)
      rw [hnone, List.takeWhile_cons_of_neg (fun hp => hq (hpq a hp)), List.takeWhile_nil]

end Ascending

def Table.under (t : Table) (start : Bytes) (after : Option Bytes) : List Entry :=
  t.entries.filter (fun e => e.1.startsWith start && after.all (· < e.1))

namespace Table

variable {t : Table} {start : Bytes}

theorem mem_under {after : Option Bytes} {e : Entry} :
    e ∈ t.under start after ↔
      t.get? e.1 = some e.2 ∧ e.1.startsWith start = true ∧ after.all (· < e.1) = true := by
  rw [under, List.mem_filter, Bool.and_eq_true]
  exact and_congr_left' SortedMap.mem_entries

theorem under_ascending (after : Option Bytes) :
    (t.under start after).Pairwise (fun a b => a.1 < b.1) :=
  t.ascending.filter _

theorem takeWhile_startsWith {q : Entry → Bool} (hq : ∀ e ∈ t.entries, q e = true → start ≤ e.1) :
    (t.entries.filter q).takeWhile (fun e => e.1.startsWith start) =
      t.entries.filter (fun e => e.1.startsWith start && q e) := by
  rw [takeWhile_eq_filter, List.filter_filter]
  refine List.Pairwise.imp_of_mem ?_ (t.ascending.filter q)
  intro a b ha _ hab hb
  obtain ⟨hmem, hpast⟩ := List.mem_filter.mp ha
  exact Bytes.startsWith_of_le (hq a hmem hpast) (Std.le_of_lt hab) hb

end Table

def Bytes.isPast (start : Bytes) (after : Option Bytes) (key : Bytes) : Bool :=
  match after with
  | some a => a < key
  | none => start ≤ key

def Table.page (t : Table) (start : Bytes) (after : Option Bytes) (limit : Nat) : List Entry :=
  ((t.entries.filter (fun e => start.isPast after e.1)).takeWhile
    (fun e => e.1.startsWith start)).take limit

theorem Table.page_of_past {t : Table} {start : Bytes} {after : Option Bytes}
    (hpast : ∀ e ∈ t.entries, start.isPast after e.1 = true → start ≤ e.1) (limit : Nat) :
    t.page start after limit = (t.under start after).take limit := by
  rw [page, takeWhile_startsWith hpast, under]
  congr 1
  apply List.filter_congr
  intro e _
  cases hs : e.1.startsWith start with
  | false => rfl
  | true => cases after <;> simp [Bytes.isPast, Bytes.le_of_startsWith hs]

theorem Table.page_eq_under {t : Table} {start : Bytes} {after : Option Bytes}
    (ha : after.all (start ≤ ·) = true) (limit : Nat) :
    t.page start after limit = (t.under start after).take limit := by
  apply page_of_past
  intro e _ he
  cases after with
  | none => simpa [Bytes.isPast] using he
  | some a =>
    have hle : start ≤ a := by simpa using ha
    exact Std.le_trans hle (Std.le_of_lt (by simpa [Bytes.isPast] using he))

theorem MemoryStore.scanPage_eq {m : MemoryStore} {t : Table} (hm : m.contents.toTable = t)
    (ho : m.isOpen = true) (start : Bytes) (after : Option Bytes) (limit : Nat) :
    m.scanPage start after limit = .ok (t.page start after limit) := by
  have htable : m.contents.table = t.entries := congrArg SortedMap.entries hm
  simp only [scanPage, ho, if_true, htable, Table.page]
  congr 3
  cases after with
  | none =>
    rw [dropWhile_eq_filter]
    · apply List.filter_congr
      intro e _
      rw [← decide_not, Bytes.isPast, decide_eq_decide.mpr Std.not_lt]
    · refine t.ascending.imp ?_
      intro a b hab hb
      simp only [decide_eq_true_eq] at hb ⊢
      exact Std.lt_trans hab hb
  | some key =>
    rw [dropWhile_eq_filter]
    · apply List.filter_congr
      intro e _
      rw [← decide_not, Bytes.isPast, decide_eq_decide.mpr Std.not_le]
    · refine t.ascending.imp ?_
      intro a b hab hb
      simp only [decide_eq_true_eq] at hb ⊢
      exact Std.le_of_lt (Std.lt_of_lt_of_le hab hb)

/-- What stands below the least bound above the start goes on as far as the keys that begin with
the start, so the bound cuts off none of them. -/
theorem DurableStore.scanPage_eq {s : DurableStore} {d : Disk} {t : Table}
    (ht : s.table d = .ok t) (start : Bytes) (after : Option Bytes) (limit : Nat) :
    s.scanPage d start after limit = .ok (t.page start after limit) := by
  simp only [scanPage, ht, Table.page, bind, Except.bind, pure, Except.pure]
  rw [← List.take_takeWhile]
  congr 2
  cases hu : start.successor? with
  | none => cases after <;> simp [Bytes.isPast]
  | some upper =>
    have hbelow (e : Entry) (he : e.1.startsWith start = true) : decide (e.1 < upper) = true :=
      decide_eq_true (Bytes.lt_successor hu he)
    have hcut : ((t.entries.filter (fun e => start.isPast after e.1)).filter
          (fun e => e.1 < upper)).takeWhile (fun e => e.1.startsWith start) =
        (t.entries.filter (fun e => start.isPast after e.1)).takeWhile
          (fun e => e.1.startsWith start) := by
      apply takeWhile_filter hbelow
      refine (t.ascending.filter _).imp ?_
      intro a b hab hb
      simp only [decide_eq_true_eq] at hb ⊢
      exact Std.lt_trans hab hb
    rw [← hcut, List.filter_filter]
    congr 1
    apply List.filter_congr
    intro e _
    rw [Bool.and_comm]
    cases after <;> rfl

theorem Shelf.Holds.scanPage {s : Shelf} {t : Table} (h : s.Holds t) {start : Bytes}
    {after : Option Bytes} (ha : after.all (start ≤ ·) = true) (limit : Nat) :
    s.Answers t t (.ok ((t.under start after).take limit)) (s.scanPage start after limit) := by
  rw [← Table.page_eq_under ha]
  apply Shelf.look_holds h
  · intro m hm ho
    exact m.scanPage_eq hm ho start after limit
  · intro m ho
    simp [MemoryStore.scanPage, ho]
  · intro d disk hd
    exact d.scanPage_eq hd start after limit

theorem startsWith_of_mem_takeWhile {l : List Entry} {start : Bytes} {e : Entry}
    (h : e ∈ l.takeWhile (fun p => p.1.startsWith start)) : e.1.startsWith start = true :=
  List.mem_takeWhile_imp (p := fun p : Entry => p.1.startsWith start) h

theorem MemoryStore.startsWith_of_scanPage {m : MemoryStore} {start : Bytes} {after : Option Bytes}
    {limit : Nat} {page : List Entry} (h : m.scanPage start after limit = .ok page) :
    ∀ e ∈ page, e.1.startsWith start = true := by
  unfold scanPage at h
  split_ifs at h
  cases h
  exact fun e he => startsWith_of_mem_takeWhile (List.mem_of_mem_take he)

theorem DurableStore.startsWith_of_scanPage {s : DurableStore} {d : Disk} {start : Bytes}
    {after : Option Bytes} {limit : Nat} {page : List Entry}
    (h : s.scanPage d start after limit = .ok page) : ∀ e ∈ page, e.1.startsWith start = true := by
  cases ht : s.table d with
  | error e => simp [scanPage, ht, bind, Except.bind] at h
  | ok t =>
    simp only [scanPage, ht, bind, Except.bind, pure, Except.pure, Except.ok.injEq] at h
    subst h
    exact fun e he => startsWith_of_mem_takeWhile he

theorem Shelf.startsWith_of_scanPage {s s' : Shelf} {start : Bytes} {after : Option Bytes}
    {limit : Nat} {page : List Entry} (h : s.scanPage start after limit = (.ok page, s')) :
    ∀ e ∈ page, e.1.startsWith start = true := by
  have hresult := congrArg Prod.fst h
  obtain ⟨backend, disk, faults⟩ := s
  unfold scanPage call at hresult
  split at hresult
  · cases hresult
  · cases backend with
    | memory m => exact m.startsWith_of_scanPage hresult
    | durable d => exact d.startsWith_of_scanPage hresult

def Shelf.Unreadable (s : Shelf) : Prop :=
  ∀ start after limit, ∃ e, s.scanPage start after limit = (.error e, s.counted .scan)

theorem Shelf.holds_or_unreadable (s : Shelf) (hd : s.disk.NamedInUse) :
    (∃ t, s.Holds t) ∨ s.Unreadable := by
  obtain ⟨backend, disk, faults⟩ := s
  cases backend with
  | memory m => exact Or.inl ⟨_, rfl⟩
  | durable d =>
    cases ht : d.table disk with
    | ok t => exact Or.inl ⟨t, ht, hd⟩
    | error e =>
      refine Or.inr fun start after limit => ?_
      rcases Shelf.call_cases ⟨.durable d, disk, faults⟩ .scan
          (look (·.scanPage start after limit) (·.scanPage · start after limit)) with
        hcall | ⟨-, e', hcall⟩
      · refine ⟨e, hcall.trans ?_⟩
        simp [look, Shelf.counted, DurableStore.scanPage, ht, bind, Except.bind]
      · exact ⟨e', hcall⟩

namespace Table

variable {t : Table} {start : Bytes} {after : Option Bytes}

theorem under_split {l m : List Entry} {e : Entry} (h : t.under start after = l ++ e :: m) :
    t.under start (some e.1) = m := by
  have hasc : (t.under start after).Pairwise (fun a b => a.1 < b.1) := under_ascending after
  rw [h, List.pairwise_append, List.pairwise_cons] at hasc
  obtain ⟨_, ⟨hm, _⟩, hl⟩ := hasc
  have he : e ∈ t.under start after := by simp [h]
  have hafter : after.all (· < e.1) = true := (mem_under.mp he).2.2
  have hfilter : t.under start (some e.1) = (t.under start after).filter (fun x => e.1 < x.1) := by
    rw [under, under, List.filter_filter]
    apply List.filter_congr
    intro x _
    cases hx : decide (e.1 < x.1) with
    | false => simp [hx]
    | true =>
      have hlt : e.1 < x.1 := of_decide_eq_true hx
      cases after with
      | none => simp [hx]
      | some a =>
        have ha : a < e.1 := by simpa using hafter
        simp [hlt, Std.lt_trans ha hlt]
  have hbefore : l.filter (fun x => e.1 < x.1) = [] := by
    apply List.filter_eq_nil_iff.mpr
    intro x hx
    simpa using Std.le_of_lt (hl x hx e List.mem_cons_self)
  have hbehind : m.filter (fun x => e.1 < x.1) = m := by
    apply List.filter_eq_self.mpr
    intro x hx
    simpa using hm x hx
  rw [hfilter, h, List.filter_append, hbefore, List.filter_cons_of_neg (by simp), hbehind]
  rfl

end Table

end Staging
