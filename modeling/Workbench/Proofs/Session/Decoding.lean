import Workbench.Proofs.Json.Records
import Workbench.Session.Request

/-!
# Decoding requests

A message that is an object is decoded to a request exactly if its members make that request,
whatever their order and whatever else is among them. Either way the answer carries the id of the
message, unless that is `null`.
-/

namespace Workbench.Session

open Json (Holds Lays OrElse Perhaps Reads IsNat Distinct)
open Pipeline (Mode)

variable {payload : Json} {request : Request} {members given : List (String × Json)}

/-! ### Choices -/

/-- The value chooses a name. -/
inductive Chooses (isNothing : Json → Bool) : String → Json → Prop
  | text (name : String) : Chooses isNothing name (.str name)
  | member {name : String} {value : Json} : isNothing value = true →
      Chooses isNothing name (.obj [(name, value)])

theorem reads_choice? (isNothing : Json → Bool) :
    Reads (choice? isNothing) (Chooses isNothing) := by
  intro value name
  unfold choice?
  split
  · rw [Option.some.injEq]
    constructor
    · rintro rfl
      exact .text _
    · rintro ⟨⟩
      rfl
  · next chosen inside =>
    by_cases nothing : isNothing inside = true
    · rw [if_pos nothing, Option.some.injEq]
      constructor
      · rintro rfl
        exact .member nothing
      · rintro ⟨⟩
        rfl
    · rw [if_neg nothing]
      refine iff_of_false nofun fun chooses => ?_
      cases chooses with
      | member is => exact nothing is
  · next other other' =>
    refine iff_of_false nofun fun chooses => ?_
    cases chooses with
    | text => exact other _ rfl
    | member _ => exact other' _ _ rfl

theorem ofName?_eq_some_iff {name : String} {mode : Mode} :
    Mode.ofName? name = some mode ↔ name = mode.name := by
  constructor
  · intro found
    exact (eq_of_beq (List.find?_some (p := fun m : Mode => m.name == name) found)).symm
  · rintro rfl
    exact Mode.ofName?_name mode

theorem reads_mode? : Reads mode? fun mode => Chooses isEmptyValue mode.name := by
  intro value mode
  rw [mode?, Option.bind_eq_some_iff]
  constructor
  · rintro ⟨name, chosen, found⟩
    rw [← ofName?_eq_some_iff.1 found]
    exact (reads_choice? _ _ _).1 chosen
  · exact fun chooses => ⟨_, (reads_choice? _ _ _).2 chooses, Mode.ofName?_name mode⟩

/-! ### Parameters -/

/-- The payload has the parameters of something to run. -/
def CarriesRun (payload : Json) (p : RunParams) : Prop :=
  ∃ args timeout, Lays ["filePath", "args", "timeoutMs"] payload
      [some (.str p.filePath), args, timeout] ∧
    OrElse [] (fun args value => value = .strings args) args p.args ∧
    Perhaps (IsNat (1 <<< 64)) timeout p.timeout

/-- The payload has the parameters of a compilation. -/
def CarriesCompile (payload : Json) (p : CompileParams) : Prop :=
  ∃ mode level quantum gas,
    Lays ["filePath", "mode", "optimizationLevel", "quantumSafety", "gasOptimization"] payload
      [some (.str p.filePath), mode, level, quantum, gas] ∧
    OrElse .debug (fun mode => Chooses isEmptyValue mode.name) mode p.mode ∧
    Perhaps (IsNat (1 <<< 8)) level p.optimizationLevel ∧
    Perhaps (fun b value => value = .bool b) quantum p.quantumSafety ∧
    Perhaps (fun b value => value = .bool b) gas p.gasOptimization

/-- The payload has the parameters of a request. -/
def Carries (payload : Json) : Request → Prop
  | .saveFile path content base =>
      ∃ field, Lays ["path", "content", "baseVersion"] payload
          [some (.str path), some (.str content), field] ∧
        Perhaps (IsNat (1 <<< 64)) field base
  | .loadFile path | .createFile path | .deleteFile path =>
      Lays ["path"] payload [some (.str path)]
  | .compile p => CarriesCompile payload p
  | .run p | .debug p => CarriesRun payload p
  | .terminal command timeout =>
      ∃ field, Lays ["command", "timeoutMs"] payload [some (.str command), field] ∧
        Perhaps (IsNat (1 <<< 64)) field timeout
  | .getFiles | .terminate => payload = .null

theorem pathParams?_eq_some_iff (distinct : Distinct payload) {path : String} :
    pathParams? payload = some path ↔ Lays ["path"] payload [some (.str path)] := by
  simp only [pathParams?, Option.bind_eq_bind, Option.bind_eq_some_iff,
    Json.fields?_eq_some_iff distinct]
  constructor
  · rintro ⟨fields, lays, read⟩
    obtain ⟨field, rfl⟩ := List.length_eq_one_iff.1 lays.length_eq
    obtain ⟨_, rfl, rfl⟩ := Json.reads_asString?.required_eq_some_iff.1 read
    exact lays
  · exact fun lays => ⟨_, lays, rfl⟩

theorem optional_nat_eq_some_iff {field : Option Json} {n : Option Nat} (bits : Nat) :
    Json.optional (Json.asNat? bits) field = some n ↔ Perhaps (IsNat (1 <<< bits)) field n :=
  (Json.reads_asNat? bits).optional_eq_some_iff rfl

theorem optional_bool_eq_some_iff {field : Option Json} {b : Option Bool} :
    Json.optional Json.asBool? field = some b ↔
      Perhaps (fun b value => value = .bool b) field b :=
  Json.reads_asBool?.optional_eq_some_iff rfl

theorem runParams?_eq_some_iff (distinct : Distinct payload) {p : RunParams} :
    runParams? payload = some p ↔ CarriesRun payload p := by
  simp only [runParams?, CarriesRun, Option.bind_eq_bind, Option.bind_eq_some_iff,
    Json.fields?_eq_some_iff distinct]
  constructor
  · rintro ⟨fields, lays, read⟩
    obtain ⟨path, args, timeout, rfl⟩ := List.length_eq_three.1 lays.length_eq
    simp only [Option.bind_eq_some_iff, Option.pure_def, Option.some.injEq,
      Json.reads_asString?.required_eq_some_iff,
      (Json.reads_asList? Json.reads_asString?).withDefault_eq_some_iff,
      optional_nat_eq_some_iff] at read
    obtain ⟨_, ⟨_, rfl, rfl⟩, _, hargs, _, htimeout, rfl⟩ := read
    exact ⟨args, timeout, lays, hargs, htimeout⟩
  · rintro ⟨args, timeout, lays, hargs, htimeout⟩
    refine ⟨_, lays, ?_⟩
    simp only [Option.bind_eq_some_iff, Option.pure_def, Option.some.injEq,
      Json.reads_asString?.required_eq_some_iff,
      (Json.reads_asList? Json.reads_asString?).withDefault_eq_some_iff,
      optional_nat_eq_some_iff]
    exact ⟨_, ⟨_, rfl, rfl⟩, _, hargs, _, htimeout, rfl⟩

theorem compileParams?_eq_some_iff (distinct : Distinct payload) {p : CompileParams} :
    compileParams? payload = some p ↔ CarriesCompile payload p := by
  simp only [compileParams?, CarriesCompile, Option.bind_eq_bind, Option.bind_eq_some_iff,
    Json.fields?_eq_some_iff distinct]
  constructor
  · rintro ⟨fields, lays, read⟩
    obtain ⟨path, mode, level, quantum, gas, rfl⟩ :
        ∃ path mode level quantum gas, fields = [path, mode, level, quantum, gas] :=
      match fields, lays.length_eq with
      | [path, mode, level, quantum, gas], _ => ⟨path, mode, level, quantum, gas, rfl⟩
    simp only [Option.bind_eq_some_iff, Option.pure_def, Option.some.injEq,
      Json.reads_asString?.required_eq_some_iff, reads_mode?.withDefault_eq_some_iff,
      optional_nat_eq_some_iff, optional_bool_eq_some_iff] at read
    obtain ⟨_, ⟨_, rfl, rfl⟩, _, hmode, _, hlevel, _, hquantum, _, hgas, rfl⟩ := read
    exact ⟨mode, level, quantum, gas, lays, hmode, hlevel, hquantum, hgas⟩
  · rintro ⟨mode, level, quantum, gas, lays, hmode, hlevel, hquantum, hgas⟩
    refine ⟨_, lays, ?_⟩
    simp only [Option.bind_eq_some_iff, Option.pure_def, Option.some.injEq,
      Json.reads_asString?.required_eq_some_iff, reads_mode?.withDefault_eq_some_iff,
      optional_nat_eq_some_iff, optional_bool_eq_some_iff]
    exact ⟨_, ⟨_, rfl, rfl⟩, _, hmode, _, hlevel, _, hquantum, _, hgas, rfl⟩

theorem saveRequest?_eq_some_iff (distinct : Distinct payload) :
    saveRequest? payload = some request ↔ ∃ path content base,
      request = .saveFile path content base ∧ Carries payload request := by
  simp only [saveRequest?, Option.bind_eq_bind, Option.bind_eq_some_iff,
    Json.fields?_eq_some_iff distinct]
  constructor
  · rintro ⟨fields, lays, read⟩
    obtain ⟨path, content, base, rfl⟩ := List.length_eq_three.1 lays.length_eq
    simp only [Option.bind_eq_some_iff, Option.pure_def, Option.some.injEq,
      Json.reads_asString?.required_eq_some_iff, optional_nat_eq_some_iff] at read
    obtain ⟨_, ⟨_, rfl, rfl⟩, _, ⟨_, rfl, rfl⟩, _, hbase, rfl⟩ := read
    exact ⟨_, _, _, rfl, base, lays, hbase⟩
  · rintro ⟨path, content, base, rfl, field, lays, hbase⟩
    refine ⟨_, lays, ?_⟩
    simp only [Option.bind_eq_some_iff, Option.pure_def, Option.some.injEq,
      Json.reads_asString?.required_eq_some_iff, optional_nat_eq_some_iff]
    exact ⟨_, ⟨_, rfl, rfl⟩, _, ⟨_, rfl, rfl⟩, _, hbase, rfl⟩

theorem terminalRequest?_eq_some_iff (distinct : Distinct payload) :
    terminalRequest? payload = some request ↔ ∃ command timeout,
      request = .terminal command timeout ∧ Carries payload request := by
  simp only [terminalRequest?, Option.bind_eq_bind, Option.bind_eq_some_iff,
    Json.fields?_eq_some_iff distinct]
  constructor
  · rintro ⟨fields, lays, read⟩
    obtain ⟨command, timeout, rfl⟩ := List.length_eq_two.1 lays.length_eq
    simp only [Option.bind_eq_some_iff, Option.pure_def, Option.some.injEq,
      Json.reads_asString?.required_eq_some_iff, optional_nat_eq_some_iff] at read
    obtain ⟨_, ⟨_, rfl, rfl⟩, _, htimeout, rfl⟩ := read
    exact ⟨_, _, rfl, timeout, lays, htimeout⟩
  · rintro ⟨command, timeout, rfl, field, lays, htimeout⟩
    refine ⟨_, lays, ?_⟩
    simp only [Option.bind_eq_some_iff, Option.pure_def, Option.some.injEq,
      Json.reads_asString?.required_eq_some_iff, optional_nat_eq_some_iff]
    exact ⟨_, ⟨_, rfl, rfl⟩, _, htimeout, rfl⟩

theorem bareRequest?_eq_some_iff {bare : Request} :
    bareRequest? bare payload = some request ↔ request = bare ∧ payload = .null := by
  unfold bareRequest?
  cases payload <;> simp [Json.isNull, eq_comm]

/-- The name of a type and a payload make the requests of that type that the payload carries. -/
theorem request?_eq_some_iff (distinct : Distinct payload) {name : String} :
    request? name payload = some request ↔
      name = request.typeName ∧ Carries payload request := by
  constructor
  · intro read
    unfold request? at read
    split at read
    · obtain ⟨_, _, _, rfl, carries⟩ := (saveRequest?_eq_some_iff distinct).1 read
      exact ⟨rfl, carries⟩
    · obtain ⟨_, path, rfl⟩ := Option.map_eq_some_iff.1 read
      exact ⟨rfl, (pathParams?_eq_some_iff distinct).1 path⟩
    · obtain ⟨_, params, rfl⟩ := Option.map_eq_some_iff.1 read
      exact ⟨rfl, (compileParams?_eq_some_iff distinct).1 params⟩
    · obtain ⟨_, params, rfl⟩ := Option.map_eq_some_iff.1 read
      exact ⟨rfl, (runParams?_eq_some_iff distinct).1 params⟩
    · obtain ⟨_, params, rfl⟩ := Option.map_eq_some_iff.1 read
      exact ⟨rfl, (runParams?_eq_some_iff distinct).1 params⟩
    · obtain ⟨rfl, nothing⟩ := bareRequest?_eq_some_iff.1 read
      exact ⟨rfl, nothing⟩
    · obtain ⟨_, path, rfl⟩ := Option.map_eq_some_iff.1 read
      exact ⟨rfl, (pathParams?_eq_some_iff distinct).1 path⟩
    · obtain ⟨_, path, rfl⟩ := Option.map_eq_some_iff.1 read
      exact ⟨rfl, (pathParams?_eq_some_iff distinct).1 path⟩
    · obtain ⟨_, _, rfl, carries⟩ := (terminalRequest?_eq_some_iff distinct).1 read
      exact ⟨rfl, carries⟩
    · obtain ⟨rfl, nothing⟩ := bareRequest?_eq_some_iff.1 read
      exact ⟨rfl, nothing⟩
    · cases read
  · rintro ⟨rfl, carries⟩
    cases request with
    | saveFile path content base =>
        exact (saveRequest?_eq_some_iff distinct).2 ⟨_, _, _, rfl, carries⟩
    | loadFile path | createFile path | deleteFile path =>
        exact Option.map_eq_some_iff.2 ⟨_, (pathParams?_eq_some_iff distinct).2 carries, rfl⟩
    | compile p =>
        exact Option.map_eq_some_iff.2 ⟨_, (compileParams?_eq_some_iff distinct).2 carries, rfl⟩
    | run p | debug p =>
        exact Option.map_eq_some_iff.2 ⟨_, (runParams?_eq_some_iff distinct).2 carries, rfl⟩
    | getFiles | terminate => exact bareRequest?_eq_some_iff.2 ⟨rfl, carries⟩
    | terminal command timeout =>
        exact (terminalRequest?_eq_some_iff distinct).2 ⟨_, _, rfl, carries⟩

/-! ### Messages -/

/-- The members make a request: they name its type, and their payload, or `null` without one, has
its parameters. -/
def Makes (members : List (String × Json)) (request : Request) : Prop :=
  ∃ kind payload, ("type", kind) ∈ members ∧ Chooses Json.isNull request.typeName kind ∧
    (("payload", payload) ∈ members ∨ payload = .null ∧ Holds members "payload" none) ∧
    Carries payload request

theorem payload_iff (distinct : (members.map Prod.fst).Nodup) :
    (Json.lookup? "payload" members).getD .null = payload ↔
      ("payload", payload) ∈ members ∨ payload = .null ∧ Holds members "payload" none := by
  rw [← Json.lookup?_eq_some_iff distinct, ← Json.lookup?_eq_iff distinct]
  cases Json.lookup? "payload" members <;> simp [eq_comm]

theorem distinct_payload (distinct : Distinct (.obj members)) :
    Distinct ((Json.lookup? "payload" members).getD .null) := by
  cases distinct with
  | obj distinct each =>
      cases found : Json.lookup? "payload" members with
      | none => exact .null
      | some payload => exact each _ ((Json.lookup?_eq_some_iff distinct).1 found)

theorem requestOf?_eq_some_iff (distinct : Distinct (.obj members)) :
    requestOf? members = some request ↔ Makes members request := by
  have inside := distinct_payload distinct
  cases distinct with
  | obj distinct _ =>
      simp only [requestOf?, Option.bind_eq_bind, Option.bind_eq_some_iff,
        Json.lookup?_eq_some_iff distinct, reads_choice? _ _ _, request?_eq_some_iff inside]
      constructor
      · rintro ⟨kind, named, _, chooses, rfl, carries⟩
        exact ⟨kind, _, named, chooses, (payload_iff distinct).1 rfl, carries⟩
      · rintro ⟨kind, payload, named, chooses, holds, carries⟩
        rw [← (payload_iff distinct).2 holds] at carries
        exact ⟨kind, named, _, chooses, rfl, carries⟩

/-- Not `null`, and under the key of ids. -/
theorem messageId?_eq_some_iff (distinct : (members.map Prod.fst).Nodup) {id : Json} :
    messageId? members = some id ↔ ("id", id) ∈ members ∧ id ≠ .null := by
  rw [messageId?, Option.filter_eq_some_iff, Json.lookup?_eq_some_iff distinct]
  cases id <;> simp [Json.isNull]

/-! ### Written requests -/

/-- The numbers in a request are in the range of their fields. -/
def Request.Fits : Request → Prop
  | saveFile _ _ base => ∀ n, base = some n → n < 1 <<< 64
  | compile p => ∀ n, p.optimizationLevel = some n → n < 1 <<< 8
  | run p | debug p => ∀ n, p.timeout = some n → n < 1 <<< 64
  | terminal _ timeout => ∀ n, timeout = some n → n < 1 <<< 64
  | _ => True

/-- What a parameter is without being given. -/
def IsDefault (m : String × Json) : Prop :=
  m.2 = .null ∨ m = ("args", .strings []) ∨ m = ("mode", .str Mode.debug.name)

/-- The parameter is given, or it is a default and nothing else is given for it. -/
def Supplied (given : List (String × Json)) (m : String × Json) : Prop :=
  m ∈ given ∨ IsDefault m ∧ Holds given m.1 none

/-- The members name the type of a request and have its payload, in any order and among others. -/
inductive Writes (members : List (String × Json)) (request : Request) : Prop
  | bare : ("type", .str request.typeName) ∈ members → request.payload = .null →
      ("payload", .null) ∈ members ∨ Holds members "payload" none → Writes members request
  | parameters {expected given : List (String × Json)} :
      ("type", .str request.typeName) ∈ members → request.payload = .obj expected →
      ("payload", .obj given) ∈ members → (∀ m ∈ expected, Supplied given m) →
      Writes members request

section

variable {name : String}

theorem Supplied.required {text : String} (supplied : Supplied given (name, .str text))
    (other : name ≠ "mode") : Holds given name (some (.str text)) := by
  refine supplied.resolve_right fun ⟨default, _⟩ => ?_
  rcases default with null | args | mode
  · cases null
  · cases (Prod.mk.inj args).2
  · exact other (Prod.mk.inj mode).1

theorem Supplied.perhaps {α : Type} {write : α → Json} {Stands : α → Json → Prop} {a : Option α}
    (supplied : Supplied given (name, .ofOption write a))
    (unlike : ∀ x, ¬ IsDefault (name, write x)) (stands : ∀ x, a = some x → Stands x (write x)) :
    ∃ field, Holds given name field ∧ Perhaps Stands field a := by
  cases a with
  | none =>
      rcases supplied with mem | ⟨_, absent⟩
      · exact ⟨some _, mem, .null⟩
      · exact ⟨none, absent, .absent⟩
  | some x =>
      rcases supplied with mem | ⟨default, _⟩
      · exact ⟨some _, mem, .given (stands x rfl)⟩
      · exact absurd default (unlike x)

theorem Supplied.orElse {α : Type} {Stands : α → Json → Prop} {value : Json} {a default : α}
    (supplied : Supplied given (name, value)) (only : IsDefault (name, value) → a = default)
    (stands : Stands a value) :
    ∃ field, Holds given name field ∧ OrElse default Stands field a := by
  rcases supplied with mem | ⟨isDefault, absent⟩
  · exact ⟨some _, mem, .given stands⟩
  · exact ⟨none, absent, only isDefault ▸ .absent⟩

theorem Supplied.perhaps_nat {bound : Nat} {n : Option Nat}
    (supplied : Supplied given (name, .ofOption .nat n)) (fits : ∀ k, n = some k → k < bound) :
    ∃ field, Holds given name field ∧ Perhaps (IsNat bound) field n :=
  supplied.perhaps (fun k => by simp [IsDefault, Json.nat, Json.strings])
    fun k is => ⟨fits k is, rfl⟩

theorem Supplied.perhaps_bool {b : Option Bool}
    (supplied : Supplied given (name, .ofOption .bool b)) :
    ∃ field, Holds given name field ∧ Perhaps (fun b value => value = .bool b) field b :=
  supplied.perhaps (fun b => by simp [IsDefault, Json.strings]) fun _ _ => rfl

end

theorem Supplied.args {args : List String} (supplied : Supplied given ("args", .strings args)) :
    ∃ field, Holds given "args" field ∧
      OrElse [] (fun args value => value = .strings args) field args :=
  supplied.orElse (by simp [IsDefault, Json.strings]) rfl

theorem Supplied.mode {mode : Mode} (supplied : Supplied given ("mode", .str mode.name)) :
    ∃ field, Holds given "mode" field ∧
      OrElse .debug (fun mode => Chooses isEmptyValue mode.name) field mode :=
  supplied.orElse (by cases mode <;> simp [IsDefault, Mode.name]) (.text _)

theorem carriesRun_of_supplied {p : RunParams} {expected : List (String × Json)}
    (fits : ∀ n, p.timeout = some n → n < 1 <<< 64)
    (payload : Request.runPayload p = .obj expected) (each : ∀ m ∈ expected, Supplied given m) :
    CarriesRun (.obj given) p := by
  cases payload
  simp only [List.forall_mem_cons] at each
  obtain ⟨path, args, timeout, -⟩ := each
  have path := path.required (by decide)
  obtain ⟨argsField, args, isArgs⟩ := args.args
  obtain ⟨timeoutField, timeout, isTimeout⟩ := timeout.perhaps_nat fits
  exact ⟨_, _, .object (.cons path (.cons args (.cons timeout .nil))), isArgs, isTimeout⟩

theorem carriesCompile_of_supplied {p : CompileParams} {expected : List (String × Json)}
    (fits : ∀ n, p.optimizationLevel = some n → n < 1 <<< 8)
    (payload : (Request.compile p).payload = .obj expected)
    (each : ∀ m ∈ expected, Supplied given m) : CarriesCompile (.obj given) p := by
  cases payload
  simp only [List.forall_mem_cons] at each
  obtain ⟨path, mode, level, quantum, gas, -⟩ := each
  have path := path.required (by decide)
  obtain ⟨modeField, mode, isMode⟩ := mode.mode
  obtain ⟨levelField, level, isLevel⟩ := level.perhaps_nat fits
  obtain ⟨quantumField, quantum, isQuantum⟩ := quantum.perhaps_bool
  obtain ⟨gasField, gas, isGas⟩ := gas.perhaps_bool
  exact ⟨_, _, _, _, .object (.cons path (.cons mode (.cons level (.cons quantum
    (.cons gas .nil))))), isMode, isLevel, isQuantum, isGas⟩

theorem carries_of_supplied {expected : List (String × Json)} (fits : request.Fits)
    (payload : request.payload = .obj expected) (each : ∀ m ∈ expected, Supplied given m) :
    Carries (.obj given) request := by
  cases request with
  | saveFile path content base =>
      cases payload
      simp only [List.forall_mem_cons] at each
      obtain ⟨path, content, base, -⟩ := each
      obtain ⟨field, base, isBase⟩ := base.perhaps_nat fits
      exact ⟨field, .object (.cons (path.required (by decide))
        (.cons (content.required (by decide)) (.cons base .nil))), isBase⟩
  | loadFile path | createFile path | deleteFile path =>
      cases payload
      exact .object (.cons ((List.forall_mem_singleton.1 each).required (by decide)) .nil)
  | compile p => exact carriesCompile_of_supplied fits payload each
  | run p | debug p => exact carriesRun_of_supplied fits payload each
  | terminal command timeout =>
      cases payload
      simp only [List.forall_mem_cons] at each
      obtain ⟨command, timeout, -⟩ := each
      obtain ⟨field, timeout, isTimeout⟩ := timeout.perhaps_nat fits
      exact ⟨field, .object (.cons (command.required (by decide)) (.cons timeout .nil)), isTimeout⟩
  | getFiles | terminate => cases payload

theorem carries_null (bare : request.payload = .null) : Carries .null request := by
  cases request <;> cases bare <;> rfl

/-- A message that writes a request makes it. -/
theorem Writes.makes (writes : Writes members request) (fits : request.Fits) :
    Makes members request := by
  cases writes with
  | bare type bare payload =>
      exact ⟨_, _, type, .text _, payload.imp_right fun absent => ⟨rfl, absent⟩, carries_null bare⟩
  | parameters type expects payload each =>
      exact ⟨_, _, type, .text _, .inl payload, carries_of_supplied fits expects each⟩

/-- What a message is decoded to, for an id that its answer carries. -/
structure Decodes (line : String) (members : List (String × Json)) (id : Option Json) : Prop where
  carried : ∀ value, id = some value ↔ ("id", value) ∈ members ∧ value ≠ .null
  made : ∀ request, decode line = .ok ⟨id, request⟩ ↔ Makes members request
  written : ∀ request, request.Fits → Writes members request →
    decode line = .ok ⟨id, request⟩
  refused : (∀ request, ¬ Makes members request) →
    decode line = .error ⟨id, .malformed "message is not a request"⟩

theorem decode_recovers {line : String} (object : Json.parse? line = some (.obj members)) :
    ∃ id, Decodes line members id := by
  have distinct := Json.distinct_of_parse? object
  have keys : (members.map Prod.fst).Nodup := by
    cases distinct with
    | obj keys _ => exact keys
  have made : ∀ request, decode line = .ok ⟨messageId? members, request⟩ ↔
      Makes members request := by
    intro request
    rw [← requestOf?_eq_some_iff distinct, decode, object]
    dsimp only
    cases requestOf? members <;> simp
  refine ⟨messageId? members, ?_, made, ?_, ?_⟩
  · exact fun value => messageId?_eq_some_iff keys
  · exact fun request fits writes => (made request).2 (writes.makes fits)
  · intro unmade
    have nothing : requestOf? members = none :=
      Option.eq_none_iff_forall_ne_some.2 fun request is =>
        unmade request ((requestOf?_eq_some_iff distinct).1 is)
    rw [decode, object]
    dsimp only
    rw [nothing]

/-- A load with its payload in front, and with a parameter that means nothing. -/
def loadLine : String :=
  "\x7b\"payload\":\x7b\"at\":0,\"path\":\"a\"\x7d,\"type\":\"LoadFile\",\"id\":[7]\x7d"

def loadMembers : List (String × Json) :=
  [("payload", .obj [("at", .int 0), ("path", .str "a")]), ("type", .str "LoadFile"),
    ("id", .arr [.int 7])]

theorem decode_recovers_load :
    Json.parse? loadLine = some (.obj loadMembers) ∧ ∃ id, Decodes loadLine loadMembers id :=
  ⟨rfl, decode_recovers rfl⟩

example : decode loadLine = .ok ⟨some (.arr [.int 7]), .loadFile "a"⟩ := rfl

end Workbench.Session
