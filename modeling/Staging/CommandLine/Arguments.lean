namespace Staging.CommandLine

inductive Command
  | keys
  | completed
  | get (key : String)
  | recover (id : String)
  | confirm (id : String)
  | scan
  | watch
deriving DecidableEq

inductive CommandName
  | keys
  | completed
  | get
  | recover
  | confirm
  | scan
  | watch
deriving DecidableEq

namespace CommandName

def all : List (String × CommandName) :=
  [("keys", keys), ("completed", completed), ("get", get), ("recover", recover),
    ("confirm", confirm), ("scan", scan), ("watch", watch)]

def ofText? (s : String) : Option CommandName := all.lookup s

def takesOperand : CommandName → Bool
  | get | recover | confirm => true
  | _ => false

def command? : CommandName → List String → Option Command
  | keys, [] => some .keys
  | completed, [] => some .completed
  | get, [key] => some (.get key)
  | recover, [id] => some (.recover id)
  | confirm, [id] => some (.confirm id)
  | scan, [] => some .scan
  | watch, [] => some .watch
  | _, _ => none

end CommandName

structure Options where
  config : Option String
  store : Option String
  repository : Option String
  logLevel : Option String
  jsonLogs : Bool
deriving DecidableEq

namespace Options

def blank : Options := ⟨none, none, none, none, false⟩

def orElse (o p : Options) : Options :=
  ⟨o.config <|> p.config, o.store <|> p.store, o.repository <|> p.repository,
    o.logLevel <|> p.logLevel, o.jsonLogs || p.jsonLogs⟩

end Options

inductive Setting
  | config
  | store
  | repository
  | logLevel
deriving DecidableEq

namespace Setting

def ofLong? (name : String) : Option Setting :=
  [("config", config), ("store", store), ("repository", repository),
    ("log-level", logLevel)].lookup name

def give? (o : Options) (value : String) : Setting → Option Options
  | config => if o.config.isSome || value = "" then none else some { o with config := some value }
  | store => if o.store.isSome || value = "" then none else some { o with store := some value }
  | repository => if o.repository.isSome then none else some { o with repository := some value }
  | logLevel => if o.logLevel.isSome then none else some { o with logLevel := some value }

end Setting

inductive Word
  | plain (s : String)
  | escape
  | long (name : String) (value : Option String)
  | short (letter : Char) (rest : List Char)
deriving DecidableEq

def Word.ofArgument (s : String) : Word :=
  match s.toList with
  | ['-', '-'] => .escape
  | '-' :: '-' :: r =>
    let name := String.ofList (r.takeWhile (· ≠ '='))
    match r.dropWhile (· ≠ '=') with
    | _ :: value => .long name (some (String.ofList value))
    | [] => .long name none
  | '-' :: c :: r => .short c r
  | _ => .plain s

inductive Request
  | run (c : Command) (o : Options)
  | help
  | version
deriving DecidableEq

structure Reading where
  outer : Options
  command : Option CommandName
  inner : Options
  operands : List String

namespace Reading

def blank : Reading := ⟨.blank, none, .blank, []⟩

def current (r : Reading) : Options := if r.command.isSome then r.inner else r.outer

def setCurrent (r : Reading) (o : Options) : Reading :=
  if r.command.isSome then { r with inner := o } else { r with outer := o }

def setting? (r : Reading) (s : Setting) (value : String) : Option Reading :=
  r.setCurrent <$> s.give? r.current value

def jsonLogs? (r : Reading) : Option Reading :=
  if r.current.jsonLogs then none else some (r.setCurrent { r.current with jsonLogs := true })

def operand? (r : Reading) (s : String) : Option Reading :=
  match r.command with
  | some c =>
    if c.takesOperand && r.operands.isEmpty then some { r with operands := [s] } else none
  | none => none

def finish? (r : Reading) (configVariable : Option String) : Option Request := do
  let name ← r.command
  let c ← name.command? r.operands
  let o := r.inner.orElse r.outer
  match configVariable with
  | none => return .run c o
  | some v =>
    if v = "" && (r.inner.config.isNone || r.outer.config.isNone) then none
    else return .run c { o with config := o.config <|> some v }

def go (configVariable : Option String) : Reading → List String → Option Request
  | r, [] => r.finish? configVariable
  | r, a :: rest =>
    match Word.ofArgument a with
    | .escape => rest.foldlM operand? r >>= (·.finish? configVariable)
    | .plain s =>
      match r.command with
      | some _ => r.operand? s >>= (go configVariable · rest)
      | none =>
        if s = "help" then
          match rest with
          | [] => some .help
          | [c] => if c = "help" || (CommandName.ofText? c).isSome then some .help else none
          | _ => none
        else CommandName.ofText? s >>= fun c => go configVariable { r with command := some c } rest
    | .long "help" none => some .help
    | .long "version" none => if r.command.isNone then some .version else none
    | .long "json-logs" none => r.jsonLogs? >>= (go configVariable · rest)
    | .long name (some value) =>
      Setting.ofLong? name >>= (r.setting? · value) >>= (go configVariable · rest)
    | .long name none => Setting.ofLong? name >>= fun s => goValue r s rest
    | .short 'h' _ => some .help
    | .short 'V' _ => if r.command.isNone then some .version else none
    | .short 'l' [] => goValue r .logLevel rest
    | .short 'l' ('=' :: value) =>
      r.setting? .logLevel (String.ofList value) >>= (go configVariable · rest)
    | .short 'l' value => r.setting? .logLevel (String.ofList value) >>= (go configVariable · rest)
    | .short _ _ => none
where
  goValue (r : Reading) (s : Setting) : List String → Option Request
    | [] => none
    | value :: rest =>
      match Word.ofArgument value with
      | .plain value => r.setting? s value >>= (go configVariable · rest)
      | _ => none

end Reading

def Request.ofArguments? (args : List String) (configVariable : Option String) : Option Request :=
  Reading.go configVariable .blank args

end Staging.CommandLine
