import Mathlib
import Staging.Settings.Document
import Staging.Proofs.Json.Depth

namespace Staging.Settings

open Json (Fault Spelled)

inductive Value
  | text (s : String)
  | optional (s : Option String)
  | flag (b : Bool)
  | number (i : Int)
deriving DecidableEq

inductive Kind
  | text
  | optional
  | flag
  | number (bits : Nat)

namespace Kind

def least (bits : Nat) : Int := -(Nat.pow 2 (bits - 1) : Int)

def greatest (bits : Nat) : Int := (Nat.pow 2 (bits - 1) : Int) - 1

def Holds : Kind → Value → Prop
  | text, .text _ | optional, .optional _ | flag, .flag _ => True
  | number bits, .number i => least bits ≤ i ∧ i ≤ greatest bits
  | _, _ => False

def ofText? : Kind → String → Option Value
  | text, s => some (.text s)
  | optional, s => some (.optional (some s))
  | flag, s => (bool? s).map .flag
  | number bits, s =>
    ((Text.int? s).filter fun i => least bits ≤ i ∧ i ≤ greatest bits).map .number

def ofSpelled : Kind → Spelled → Except Fault Value
  | text, v => Value.text <$> v.readText
  | optional, v => Value.optional <$> v.readOption Spelled.readText
  | flag, v => Value.flag <$> v.readBool
  | number bits, v => Value.number <$> v.readInt (least bits) (greatest bits)

end Kind

namespace Variable

def kind : Variable → Kind
  | repositoryName => .text
  | persistentFileName | deadLetterUri => .optional
  | sync | returnOldExchange | useRecovery | allowSerializedHeaders => .flag
  | recoveryIntervalMs => .number 64
  | maximumRedeliveries => .number 32

def field : Variable → String
  | repositoryName => "repository_name"
  | persistentFileName => "persistent_file_name"
  | sync => "sync"
  | returnOldExchange => "return_old_exchange"
  | useRecovery => "use_recovery"
  | recoveryIntervalMs => "recovery_interval_ms"
  | maximumRedeliveries => "maximum_redeliveries"
  | deadLetterUri => "dead_letter_uri"
  | allowSerializedHeaders => "allow_serialized_headers"

def refusal (v : Variable) (value : String) : SettingsError :=
  match v.kind with
  | .flag => .notBoolean v.name value
  | _ => .notInteger v.name value

theorem mem_all (v : Variable) : v ∈ all := by
  cases v <;> decide

end Variable

def value (s : Settings) : Variable → Value
  | .repositoryName => .text s.name
  | .persistentFileName => .optional s.storePath
  | .sync => .flag s.sync
  | .returnOldExchange => .flag s.returnOld
  | .useRecovery => .flag s.useRecovery
  | .recoveryIntervalMs => .number s.intervalMs.toInt
  | .maximumRedeliveries => .number s.maxRedeliveries.toInt
  | .deadLetterUri => .optional s.deadLetterUri
  | .allowSerializedHeaders => .flag s.keepObjectHeaders

theorem nodup_fieldNames : fieldNames.Nodup := by decide

theorem ext_value {s t : Settings} (h : ∀ v, s.value v = t.value v) : s = t := by
  obtain ⟨name, storePath, sync, returnOld, useRecovery, intervalMs, maxRedeliveries, uri, keep⟩ := s
  have hname := Value.text.inj (h .repositoryName)
  have hstore := Value.optional.inj (h .persistentFileName)
  have hsync := Value.flag.inj (h .sync)
  have hold := Value.flag.inj (h .returnOldExchange)
  have hrecovery := Value.flag.inj (h .useRecovery)
  have hinterval := Int64.toInt_inj.mp (Value.number.inj (h .recoveryIntervalMs))
  have hmaximum := Int32.toInt_inj.mp (Value.number.inj (h .maximumRedeliveries))
  have huri := Value.optional.inj (h .deadLetterUri)
  have hkeep := Value.flag.inj (h .allowSerializedHeaders)
  dsimp only at hname hstore hsync hold hrecovery hinterval hmaximum huri hkeep
  subst hname hstore hsync hold hrecovery hinterval hmaximum huri hkeep
  rfl

def place (s : Settings) : Variable → Value → Settings
  | .repositoryName, .text x => { s with name := x }
  | .persistentFileName, .optional x => { s with storePath := x }
  | .sync, .flag b => { s with sync := b }
  | .returnOldExchange, .flag b => { s with returnOld := b }
  | .useRecovery, .flag b => { s with useRecovery := b }
  | .recoveryIntervalMs, .number i => { s with intervalMs := Int64.ofInt i }
  | .maximumRedeliveries, .number i => { s with maxRedeliveries := Int32.ofInt i }
  | .deadLetterUri, .optional x => { s with deadLetterUri := x }
  | .allowSerializedHeaders, .flag b => { s with keepObjectHeaders := b }
  | _, _ => s

variable {s s' : Settings} {v u : Variable} {x : Value}

theorem value_place (h : v.kind.Holds x) (u : Variable) :
    (s.place v x).value u = if u = v then x else s.value u := by
  have h64 {i : Int} (hi : Kind.least 64 ≤ i ∧ i ≤ Kind.greatest 64) :
      (Int64.ofInt i).toInt = i :=
    Int64.toInt_ofInt_of_le hi.1 (Int.lt_of_le_sub_one hi.2)
  have h32 {i : Int} (hi : Kind.least 32 ≤ i ∧ i ≤ Kind.greatest 32) :
      (Int32.ofInt i).toInt = i :=
    Int32.toInt_ofInt_of_le hi.1 (Int.lt_of_le_sub_one hi.2)
  cases v with
  | repositoryName =>
    cases x with
    | text _ => cases u <;> rfl
    | _ => cases h
  | persistentFileName | deadLetterUri =>
    cases x with
    | optional _ => cases u <;> rfl
    | _ => cases h
  | sync | returnOldExchange | useRecovery | allowSerializedHeaders =>
    cases x with
    | flag _ => cases u <;> rfl
    | _ => cases h
  | recoveryIntervalMs =>
    cases x with
    | number i =>
      cases u with
      | recoveryIntervalMs => exact congrArg Value.number (h64 h)
      | _ => rfl
    | _ => cases h
  | maximumRedeliveries =>
    cases x with
    | number i =>
      cases u with
      | maximumRedeliveries => exact congrArg Value.number (h32 h)
      | _ => rfl
    | _ => cases h

theorem readField_eq (s : Settings) (v : Variable) (sp : Spelled) :
    readField s v.field sp = s.place v <$> v.kind.ofSpelled sp := by
  have hmap {ε α β γ : Type} (g : β → γ) (f : α → β) (r : Except ε α) :
      g <$> f <$> r = (fun a => g (f a)) <$> r := by
    cases r <;> rfl
  cases v <;>
    simp only [Variable.kind, Kind.ofSpelled, hmap] <;> rfl

def gives? (lookup : String → Option String) (v : Variable) : Option Value :=
  (given? lookup v).bind v.kind.ofText?

def Garbled (lookup : String → Option String) (v : Variable) (text : String) : Prop :=
  given? lookup v = some text ∧ v.kind.ofText? text = none

def Takes (lookup : String → Option String) (vs : List Variable) (s s' : Settings) : Prop :=
  ∀ u, s'.value u = if u ∈ vs then (gives? lookup u).getD (s.value u) else s.value u

variable {lookup : String → Option String} {vs : List Variable} {t : Settings}

theorem Takes.cons (h : Takes lookup [v] s t) (ht : Takes lookup vs t s') :
    Takes lookup (v :: vs) s s' := by
  intro u
  have hv := h u
  rw [ht u]
  simp only [List.mem_cons, List.not_mem_nil, or_false] at hv ⊢
  by_cases huv : u = v
  · rw [if_pos huv] at hv
    rw [if_pos (Or.inl huv), hv]
    cases gives? lookup u <;> simp
  · rw [if_neg huv] at hv
    simp only [huv, false_or, hv]

structure FailsAt (lookup : String → Option String) (vs before : List Variable) (v : Variable)
    (text : String) (s : Settings) (e : SettingsError) (s' : Settings) : Prop where
  first : ∃ rest, vs = before ++ v :: rest
  garbled : Garbled lookup v text
  readable : ∀ u ∈ before, ∀ text, ¬ Garbled lookup u text
  names : e = v.refusal text
  takes : Takes lookup before s s'

inductive Applies (lookup : String → Option String) (vs : List Variable) (s : Settings) :
    Except SettingsError Unit × Settings → Prop
  | through {s' : Settings} (readable : ∀ v ∈ vs, ∀ text, ¬ Garbled lookup v text)
      (takes : Takes lookup vs s s') : Applies lookup vs s (.ok (), s')
  | stopped {before : List Variable} {v : Variable} {text : String} {e : SettingsError}
      {s' : Settings} (h : FailsAt lookup vs before v text s e s') :
      Applies lookup vs s (.error e, s')

theorem Applies.cons {r : Except SettingsError Unit × Settings}
    (hv : ∀ text, ¬ Garbled lookup v text) (ht : Takes lookup [v] s t)
    (h : Applies lookup vs t r) : Applies lookup (v :: vs) s r := by
  cases h with
  | through readable takes =>
    exact .through (List.forall_mem_cons.mpr ⟨hv, readable⟩) (ht.cons takes)
  | stopped h =>
    obtain ⟨rest, hrest⟩ := h.first
    refine .stopped ⟨⟨rest, by rw [hrest, List.cons_append]⟩, h.garbled, ?_,
      h.names, ht.cons h.takes⟩
    exact List.forall_mem_cons.mpr ⟨hv, h.readable⟩

end Staging.Settings
