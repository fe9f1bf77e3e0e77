import Mathlib
import Staging.CommandLine.Session
import Staging.Proofs.Settings.Variables

namespace Staging

namespace Json.Spelled

def named : Name × Spelled → Option (String × Spelled)
  | (.text k, v) => some (k, v)
  | _ => none

def fields (names : List String) : Spelled → List (String × Spelled)
  | .object members _ => members.filterMap named
  | .array items _ => names.zip items
  | _ => []

end Json.Spelled

namespace Settings

open Json (Fault Spelled)

variable {s s' t : Settings} {v u : Variable}

def Finds (l : List (String × Spelled)) (v : Variable) (s s' : Settings) : Prop :=
  match l.lookup v.field with
  | some sp => v.kind.ofSpelled sp = .ok (s'.value v)
  | none => s'.value v = s.value v

theorem Finds.congr {l : List (String × Spelled)} (h : Finds l v t s')
    (hv : t.value v = s.value v) : Finds l v s s' := by
  rwa [Finds, ← hv]

def fileGives? (b : Bytes) (v : Variable) : Option Value :=
  (((Spelled.parse b).1.fields fieldNames).lookup v.field).bind fun sp =>
    (v.kind.ofSpelled sp).toOption

def layer? (d : Disk) (path : Option String) (v : Variable) : Option Value :=
  match path with
  | some p =>
    if d.exists? p then
      match d.read p with
      | .ok (.bytes b) => fileGives? b v
      | _ => none
    else none
  | none => none

def base (d : Disk) (path : Option String) : Except LoadError Settings :=
  match path with
  | some p => if d.exists? p then loadFile d p else .ok default
  | none => .ok default

variable {d : Disk} {path : Option String} {e : LoadError}

structure Unread (d : Disk) (path : Option String) (p : String) (e : LoadError) : Prop where
  named : path = some p
  present : d.exists? p = true
  failed : loadFile d p = .error e

variable {lookup : String → Option String}

structure FirstGarbled (lookup : String → Option String) (v : Variable) (text : String) :
    Prop where
  garbled : Garbled lookup v text
  first : ∃ before rest, Variable.all = before ++ v :: rest ∧
    ∀ u ∈ before, ∀ text, ¬ Garbled lookup u text

inductive Loads (d : Disk) (path : Option String) (lookup : String → Option String) :
    Except LoadError Settings → Prop
  | layered {s : Settings} (read : ∀ p e, ¬ Unread d path p e)
      (readable : ∀ v text, ¬ Garbled lookup v text)
      (values : ∀ v, s.value v = (gives? lookup v <|> layer? d path v).getD (default.value v)) :
      Loads d path lookup (.ok s)
  | file {p : String} {e : LoadError} (h : Unread d path p e) : Loads d path lookup (.error e)
  | garbled {v : Variable} {text : String} (read : ∀ p e, ¬ Unread d path p e)
      (first : FirstGarbled lookup v text) :
      Loads d path lookup (.error (.settings (v.refusal text)))

end Settings

namespace CommandLine.Options

open Settings (Variable Value Garbled FirstGarbled Unread)

def path (o : Options) (home : Option String) : Option String :=
  o.config <|> defaultConfigPath home

def gives? (o : Options) : Variable → Option Value
  | .repositoryName => o.repository.map .text
  | .persistentFileName => o.store.map fun p => .optional (some p)
  | _ => none

variable {o : Options} {home : Option String} {lookup : String → Option String} {d : Disk}

inductive Loads (o : Options) (home : Option String) (lookup : String → Option String)
    (d : Disk) : Except Failure Settings → Prop
  | layered {s : Settings} (present : ∀ p, o.config = some p → d.exists? p = true)
      (read : ∀ p e, ¬ Unread d (o.path home) p e)
      (readable : ∀ v text, ¬ Garbled lookup v text)
      (values : ∀ v, s.value v =
        (o.gives? v <|> Settings.gives? lookup v <|> Settings.layer? d (o.path home) v).getD
          (Settings.default.value v)) : Loads o home lookup d (.ok s)
  | missing {p : String} (named : o.config = some p) (absent : d.exists? p = false) :
      Loads o home lookup d (.error (.noConfigFile p))
  | file {p : String} {e : LoadError} (h : Unread d (o.path home) p e) :
      Loads o home lookup d (.error (.loading (some p) e))
  | garbled {v : Variable} {text : String}
      (present : ∀ p, o.config = some p → d.exists? p = true)
      (read : ∀ p e, ¬ Unread d (o.path home) p e) (first : FirstGarbled lookup v text) :
      Loads o home lookup d (.error (.loading (o.path home) (.settings (v.refusal text))))

example :
    let file := "\x7b\"sync\":false,\"persistent_file_name\":\"f\",\"dead_letter_uri\":\"file:d\"\x7d"
    let given := [("AGGREPO_PERSISTENT_FILE_NAME", "v"), ("AGGREPO_SYNC", " Yes\n"),
      ("AGGREPO_DEAD_LETTER_URI", "  ")]
    (⟨some "c.json", some "s", none, none, false⟩ : Options).load (some "/home/u")
        (List.lookup · given) (Disk.empty.put [Bytes.ofString "c.json"] (.bytes (Bytes.ofString file))) =
      .ok { Settings.default with
        storePath := some "s", sync := true, deadLetterUri := some "file:d" } := by
  decide +kernel

end CommandLine.Options

end Staging
