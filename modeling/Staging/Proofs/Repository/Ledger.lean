import Mathlib
import Staging.Repository.Basic
import Staging.Proofs.KeySpace

namespace Staging

structure Ledger where
  live : SortedMap String Bytes
  completed : SortedMap String Bytes

namespace Ledger

def blank : Ledger := ⟨.empty, .empty⟩

def part (l : Ledger) : KeySpace.Part → SortedMap String Bytes
  | .live => l.live
  | .completed => l.completed

variable (r : Repository) (l : Ledger)

def decode (key : String) : Option Bytes → Except RepositoryError (Option Exchange)
  | none => .ok none
  | some b => some <$> r.unmarshal key b

def add (key : String) (e : Exchange) : Except RepositoryError (Option Exchange) × Ledger :=
  match r.marshal key e with
  | .error err => (.error err, l)
  | .ok b =>
    match if r.settings.returnOld then decode r key (l.live.get? key) else .ok none with
    | .error err => (.error err, l)
    | .ok old => (.ok old, { l with live := l.live.insert key b })

def get (key : String) : Except RepositoryError (Option Exchange) := decode r key (l.live.get? key)

def remove (key : String) (e : Exchange) : Except RepositoryError Unit × Ledger :=
  match r.marshal key e with
  | .error err => (.error err, l)
  | .ok b =>
    if l.live.contains key then (.ok (), ⟨l.live.erase key, l.completed.insert e.id b⟩)
    else (.ok (), l)

def confirm (id : String) : Bool × Ledger :=
  (l.completed.contains id, { l with completed := l.completed.erase id })

def recover (id : String) : Except RepositoryError (Option Exchange) :=
  if r.settings.useRecovery then decode r id (l.completed.get? id) else .ok none

theorem completed_add (key : String) (e : Exchange) :
    (l.add r key e).2.completed = l.completed := by
  unfold add
  split
  · rfl
  · split <;> rfl

theorem get?_completed_remove (key : String) (e : Exchange) (i : String) :
    (l.remove r key e).2.completed.get? i = l.completed.get? i ∨
      e.id = i ∧ (l.remove r key e).1 = .ok () ∧
        ∃ b, r.marshal key e = .ok b ∧ (l.remove r key e).2.completed.get? i = some b := by
  unfold remove
  cases hm : r.marshal key e with
  | error err => exact Or.inl rfl
  | ok b =>
    dsimp only
    by_cases hc : l.live.contains key = true
    · rw [if_pos hc]
      by_cases hi : i = e.id
      · subst hi
        exact Or.inr ⟨rfl, rfl, b, rfl, SortedMap.get?_insert_self ..⟩
      · exact Or.inl (SortedMap.get?_insert_of_ne b hi)
    · rw [if_neg hc]
      exact Or.inl rfl

end Ledger

inductive Call
  | add (key : String) (e : Exchange)
  | get (key : String)
  | remove (key : String) (e : Exchange)
  | confirm (id : String)
  | recover (id : String)
  | keys
  | completed
  | completedIds (count : Nat)
  | size
  | completedSize

inductive Answer
  | exchange (x : Except RepositoryError (Option Exchange))
  | done (x : Except RepositoryError Unit)
  | flag (x : Except RepositoryError Bool)
  | texts (x : Except RepositoryError (List String))
  | yields (l : List (Except RepositoryError String))
  | number (x : Except RepositoryError Nat)

def Repository.run (r : Repository) (s : Shelf) : Call → Answer × Shelf
  | .add key e => (r.add key e s).map .exchange id
  | .get key => (r.get key s).map .exchange id
  | .remove key e => (r.remove key e s).map .done id
  | .confirm i => (r.confirm i s).map .flag id
  | .recover i => (r.recover i s).map .exchange id
  | .keys => (r.keys s).map .texts id
  | .completed => (r.completed s).map .texts id
  | .completedIds count => (r.completedIds count s).map .yields id
  | .size => (r.size s).map .number id
  | .completedSize => (r.completedSize s).map .number id

def Ledger.run (r : Repository) (l : Ledger) : Call → Answer × Ledger
  | .add key e => (l.add r key e).map .exchange id
  | .get key => (.exchange (l.get r key), l)
  | .remove key e => (l.remove r key e).map .done id
  | .confirm i => (l.confirm i).map (.flag ∘ .ok) id
  | .recover i => (.exchange (l.recover r i), l)
  | .keys => (.texts (.ok l.live.keys), l)
  | .completed => (.texts (.ok l.completed.keys), l)
  | .completedIds count => (.yields ((l.completed.keys.take count).map .ok), l)
  | .size => (.number (.ok l.live.size), l)
  | .completedSize => (.number (.ok l.completed.size), l)

def Repository.runAll {ι : Type} (r : ι → Repository) : List (ι × Call) → Shelf → List Answer × Shelf
  | [], s => ([], s)
  | (i, c) :: calls, s =>
    let (a, s) := (r i).run s c
    let (as, s) := runAll r calls s
    (a :: as, s)

def Ledger.runAll {ι : Type} [DecidableEq ι] (r : ι → Repository) :
    List (ι × Call) → (ι → Ledger) → List Answer × (ι → Ledger)
  | [], l => ([], l)
  | (i, c) :: calls, l =>
    let (a, m) := (l i).run (r i) c
    let (as, l) := runAll r calls (Function.update l i m)
    (a :: as, l)

end Staging
