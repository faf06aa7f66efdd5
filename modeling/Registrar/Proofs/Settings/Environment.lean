import Mathlib.Tactic.Common
import Registrar.Proofs.Fixed.Spelling
import Registrar.Proofs.Settings.Numerals
import Registrar.Settings

/-!
What a node makes of its environment. The variables are of five kinds, and each kind has its own
spelling, which is said here without the readers:

* `Kind.read_eq_ok_iff`: a reader takes the spellings of a value for the value, and takes nothing else;
* `loadOver_cons_cases`: one variable sets its own field, leaves the others as they are, or ends the
  loading with an error;
* `load_by_variable`: which settings are loaded, what an error names, and that written settings are
  loaded again.
-/

namespace Registrar

open Text (TrimsTo isBlank)
open Text.Numeral (Decimal)

namespace Variable

/-- What a variable sets, and how it is spelled. -/
inductive Kind where
  /-- A text that is taken as it is. -/
  | verbatim
  | flag
  | address
  | word
  /-- A number, or none where the variable is missing. -/
  | override
  deriving DecidableEq

/-- The values that a variable of the kind can set. -/
@[reducible] def Kind.Value : Kind → Type
  | .verbatim => String
  | .flag => Bool
  | .address => Address
  | .word => UInt64
  | .override => Option UInt64

def kind : Variable → Kind
  | .dataDir | .chainEndpoint => .verbatim
  | .inMemory | .skipProcessing | .skipBackgroundProcessing => .flag
  | .adminAddress | .controllerAddress => .address
  | .gasLimit | .blockTime | .laneCapacity | .enqueueTimeout | .shutdownTimeout => .word
  | .nonceOverride => .override

/-- The text is a spelling of the value. -/
def Kind.Spells : (kind : Kind) → List Char → kind.Value → Prop
  | .verbatim, text, (value : String) => text = value.toList
  | .flag, text, (value : Bool) => text = (toString value).toList
  | .address, text, (value : Address) => ∃ digits,
      (text = digits ∨ text = '0' :: 'x' :: digits ∨ text = '0' :: 'X' :: digits) ∧
        Hex.Spells digits value.bytes
  | .word, text, (value : UInt64) => Decimal text value.toNat
  | .override, text, (value : Option UInt64) => ∃ n : UInt64, value = some n ∧ Decimal text n.toNat

/-- What counts of the text of a variable: what stands between white space, or all of it. -/
def Kind.Takes (kind : Kind) (raw text : List Char) : Prop :=
  if kind = .verbatim then text = raw else TrimsTo raw text

/-- The text of the variable means the value. -/
def Means (var : Variable) (raw : String) (value : var.kind.Value) : Prop :=
  ∃ text, var.kind.Takes raw.toList text ∧ var.kind.Spells text value

/-- The text of the variable means some value. -/
def Parses (var : Variable) (raw : String) : Prop := ∃ value, var.Means raw value

/-- What is written for a value. Nothing is written for an override that there is not. -/
def Kind.write : (kind : Kind) → kind.Value → Option String
  | .verbatim, (value : String) => some value
  | .flag, (value : Bool) => some (toString value)
  | .address, (value : Address) => some value.render
  | .word, (value : UInt64) => some (toString value)
  | .override, (value : Option UInt64) => value.map toString

/-- A written value with white space around it, unless all of its text counts. -/
def Kind.pad (kind : Kind) (before after : List Char) (text : String) : String :=
  if kind = .verbatim then text else String.ofList (before ++ text.toList ++ after)

/-- How the value of a variable is read from what counts of its text. -/
def Kind.read : (kind : Kind) → List Char → Except String kind.Value
  | .verbatim, text => .ok (String.ofList text)
  | .flag, text => Settings.readBool text
  | .address, text => Settings.readAddress text
  | .word, text => Settings.readWord text
  | .override, text => (Settings.readWord text).map some

/-- What is read of the text of a variable. -/
def read (var : Variable) (raw : String) : Except String var.kind.Value :=
  var.kind.read (if var.kind = .verbatim then raw.toList else Text.trim raw.toList)

section Readers

variable {text : List Char} {raw : String} {kind : Kind}

theorem toList_true : (toString true).toList = ['t', 'r', 'u', 'e'] := by
  decide

theorem toList_false : (toString false).toList = ['f', 'a', 'l', 's', 'e'] := by
  decide

theorem readBool_eq_ok_iff {value : Bool} :
    Settings.readBool text = .ok value ↔ text = (toString value).toList := by
  unfold Settings.readBool Text.parseBool?
  cases value with
  | true =>
    rw [toList_true]
    split <;> grind
  | false =>
    rw [toList_false]
    split <;> grind

theorem readAddress_eq_ok_iff {value : Address} : Settings.readAddress text = .ok value ↔
    ∃ digits, (text = digits ∨ text = '0' :: 'x' :: digits ∨ text = '0' :: 'X' :: digits) ∧
      Hex.Spells digits value.bytes := by
  have parsed : Settings.readAddress text = .ok value ↔
      Fixed.parse (String.ofList text) = .ok value := by
    unfold Settings.readAddress
    split <;> simp_all
  rw [parsed, Fixed.parse_eq_ok_iff_digits, String.toList_ofList]

theorem readWord_eq_ok_iff {value : UInt64} :
    Settings.readWord text = .ok value ↔ Decimal text value.toNat := by
  have spelled : Decimal text value.toNat ↔
      Text.Numeral.parse UInt64.size text = .ok value.toNat := by
    rw [Text.Numeral.parse_eq_ok_iff (by decide)]
    exact (and_iff_left value.toNat_lt).symm
  rw [spelled]
  unfold Settings.readWord
  split
  · rename_i n parsed
    have small : n < UInt64.size := ((Text.Numeral.parse_eq_ok_iff (by decide)).1 parsed).2
    rw [parsed, Except.ok.injEq, Except.ok.injEq]
    constructor
    · rintro rfl
      exact (UInt64.toNat_ofNat_of_lt small).symm
    · rintro rfl
      exact UInt64.ofNat_toNat
  · rename_i failed
    rw [failed]
    exact iff_of_false nofun nofun

/-- What is read is the value that the text spells. -/
theorem Kind.read_eq_ok_iff {value : kind.Value} : kind.read text = .ok value ↔ kind.Spells text value := by
  cases kind with
  | verbatim =>
    constructor
    · rintro ⟨rfl⟩
      exact String.toList_ofList.symm
    · rintro rfl
      exact congrArg Except.ok String.ofList_toList
  | flag => exact readBool_eq_ok_iff
  | address => exact readAddress_eq_ok_iff
  | word => exact readWord_eq_ok_iff
  | override =>
    constructor
    · intro read
      change (Settings.readWord text).map some = .ok value at read
      cases word : Settings.readWord text with
      | error reason =>
        rw [word] at read
        nomatch read
      | ok n =>
        rw [word] at read
        exact ⟨n, (Except.ok.inj read).symm, readWord_eq_ok_iff.1 word⟩
    · rintro ⟨n, rfl, spelled⟩
      have word : Settings.readWord text = .ok n := readWord_eq_ok_iff.2 spelled
      exact congrArg (Except.map some) word

theorem read_eq_ok_iff {var : Variable} {value : var.kind.Value} :
    var.read raw = .ok value ↔ var.Means raw value := by
  rw [read, Kind.read_eq_ok_iff]
  unfold Means Kind.Takes
  split <;> simp [← Text.trim_eq_iff]

end Readers

section Written

variable {kind : Kind} {value : kind.Value} {text : String} {before after : List Char}

theorem numerals_solid : ∀ entry ∈ Hex.numerals, isBlank entry.1 = false := by
  decide

theorem not_isBlank_of_hexDigit {c : Char} (isDigit : Hex.IsDigit c) : isBlank c = false := by
  obtain ⟨n, stands⟩ := isDigit
  exact numerals_solid (c, n) stands

theorem Kind.spells_of_write (written : kind.write value = some text) :
    kind.Spells text.toList value := by
  cases kind with
  | verbatim | flag =>
    cases written
    rfl
  | address =>
    cases written
    refine ⟨_, .inr (.inl ?_), Hex.spells_encode (Fixed.bytes value)⟩
    simp [Fixed.render, Fixed.chars]
  | word =>
    cases written
    exact Text.Numeral.decimal_toString _
  | override =>
    obtain ⟨n, rfl, rfl⟩ := Option.map_eq_some_iff.1 written
    exact ⟨n, rfl, Text.Numeral.decimal_toString _⟩

theorem Kind.solid_of_write (trims : kind ≠ .verbatim) (written : kind.write value = some text) :
    ∀ c ∈ text.toList, isBlank c = false := by
  cases kind with
  | verbatim => exact absurd rfl trims
  | flag =>
    cases written
    cases value with
    | true =>
      simp only [toList_true, List.forall_mem_cons]
      exact ⟨rfl, rfl, rfl, rfl, nofun⟩
    | false =>
      simp only [toList_false, List.forall_mem_cons]
      exact ⟨rfl, rfl, rfl, rfl, rfl, nofun⟩
  | address =>
    cases written
    have spells := Hex.spells_encode (Fixed.bytes value)
    simp only [Fixed.render, Fixed.chars, String.toList_ofList, List.forall_mem_cons]
    exact ⟨rfl, rfl, fun c there => not_isBlank_of_hexDigit (spells.digits c there)⟩
  | word =>
    cases written
    exact Text.Numeral.not_isBlank_toString
  | override =>
    obtain ⟨n, rfl, rfl⟩ := Option.map_eq_some_iff.1 written
    exact Text.Numeral.not_isBlank_toString

/-- What is written for a value means it, also with white space around it. -/
theorem means_pad {var : Variable} {value : var.kind.Value} (blank : ∀ c ∈ before, isBlank c = true)
    (blank' : ∀ c ∈ after, isBlank c = true) (written : var.kind.write value = some text) :
    var.Means (var.kind.pad before after text) value := by
  refine ⟨text.toList, ?_, Kind.spells_of_write written⟩
  unfold Kind.Takes Kind.pad
  by_cases trims : var.kind = .verbatim
  · rw [if_pos trims, if_pos trims]
  · rw [if_neg trims, if_neg trims, String.toList_ofList]
    exact Text.trimsTo_of_padded blank blank' (Kind.solid_of_write trims written)

end Written

theorem mem_all (var : Variable) : var ∈ all := by
  cases var <;> decide

theorem all_nodup : all.Nodup := by
  decide

/-- No two variables have one name. -/
theorem find?_name (var : Variable) : (all.find? fun other => other.name = var.name) = some var := by
  cases var <;> decide

/-- Text of a variable that is taken as it is always means something. -/
theorem parses_of_verbatim {var : Variable} (verbatim : var.kind = .verbatim) (raw : String) :
    var.Parses raw := by
  cases var with
  | dataDir | chainEndpoint => exact ⟨raw, raw.toList, rfl, rfl⟩
  | _ => nomatch verbatim

end Variable

namespace Settings

open Variable (Kind)

/-- The field that a variable sets. -/
def get (settings : Settings) : (var : Variable) → var.kind.Value
  | .dataDir => settings.dataDir
  | .inMemory => settings.inMemory
  | .chainEndpoint => settings.endpoint
  | .adminAddress => settings.adminAddress
  | .controllerAddress => settings.controllerAddress
  | .gasLimit => settings.gasLimit
  | .blockTime => settings.blockTime
  | .nonceOverride => settings.nonceOverride
  | .laneCapacity => settings.laneCapacity
  | .enqueueTimeout => settings.enqueueTimeout
  | .skipProcessing => settings.skipProcessing
  | .skipBackgroundProcessing => settings.skipBackgroundProcessing
  | .shutdownTimeout => settings.shutdownTimeout

/-- The settings with another value of one field. -/
def put (settings : Settings) : (var : Variable) → var.kind.Value → Settings
  | .dataDir, value => { settings with dataDir := value }
  | .inMemory, value => { settings with inMemory := value }
  | .chainEndpoint, value => { settings with endpoint := value }
  | .adminAddress, value => { settings with adminAddress := value }
  | .controllerAddress, value => { settings with controllerAddress := value }
  | .gasLimit, value => { settings with gasLimit := value }
  | .blockTime, value => { settings with blockTime := value }
  | .nonceOverride, value => { settings with nonceOverride := value }
  | .laneCapacity, value => { settings with laneCapacity := value }
  | .enqueueTimeout, value => { settings with enqueueTimeout := value }
  | .skipProcessing, value => { settings with skipProcessing := value }
  | .skipBackgroundProcessing, value => { settings with skipBackgroundProcessing := value }
  | .shutdownTimeout, value => { settings with shutdownTimeout := value }

variable {lookup : String → Option String} {settings settings' : Settings} {var other : Variable}

@[simp] theorem get_put (settings : Settings) (var : Variable) (value : var.kind.Value) :
    (settings.put var value).get var = value := by
  cases var <;> rfl

theorem get_put_of_ne (ne : other ≠ var) (value : var.kind.Value) :
    (settings.put var value).get other = settings.get other := by
  cases var <;> cases other <;> first | rfl | exact absurd rfl ne

@[simp] theorem put_get (settings : Settings) (var : Variable) :
    settings.put var (settings.get var) = settings := by
  cases var <;> rfl

theorem ext_get (same : ∀ var, settings.get var = settings'.get var) : settings = settings' := by
  cases settings
  cases settings'
  simp only [mk.injEq]
  exact ⟨same .dataDir, same .inMemory, same .chainEndpoint, same .adminAddress,
    same .controllerAddress, same .gasLimit, same .blockTime, same .nonceOverride, same .laneCapacity,
    same .enqueueTimeout, same .skipProcessing, same .skipBackgroundProcessing, same .shutdownTimeout⟩

theorem readValue_eq {α : Type} (read : List Char → Except String α) (var : Variable) (raw : String) :
    readValue read var raw = (read (Text.trim raw.toList)).mapError (.invalidValue var raw) := by
  unfold readValue
  cases read (Text.trim raw.toList) <;> rfl

/-- A value that is read is put into the field of its variable. -/
theorem set_eq (settings : Settings) (raw : String) (var : Variable) : settings.set raw var =
    ((var.read raw).mapError (.invalidValue var raw)).map (settings.put var) := by
  cases var with
  | dataDir | chainEndpoint =>
    simp only [set, Variable.read, Variable.kind, reduceIte, Kind.read, String.ofList_toList]
    rfl
  | nonceOverride =>
    simp only [set, readValue_eq, Variable.read, Variable.kind, reduceCtorEq, reduceIte, Kind.read]
    cases readWord (Text.trim raw.toList) <;> rfl
  | inMemory | skipProcessing | skipBackgroundProcessing | adminAddress | controllerAddress
  | gasLimit | blockTime | laneCapacity | enqueueTimeout | shutdownTimeout =>
    simp only [set, readValue_eq, Variable.read, Variable.kind, reduceCtorEq, reduceIte, Kind.read]
    rfl

/-- What a variable of the environment makes of its field in the given settings. -/
def Given (lookup : String → Option String) (settings : Settings) (var : Variable)
    (value : var.kind.Value) : Prop :=
  match lookup var.name with
  | none => value = settings.get var
  | some raw => var.Means raw value

section Given

variable {value value' : var.kind.Value} {raw : String}

theorem given_of_absent (absent : lookup var.name = none) :
    Given lookup settings var value ↔ value = settings.get var := by
  rw [Given, absent]

theorem given_of_present (present : lookup var.name = some raw) :
    Given lookup settings var value ↔ var.Means raw value := by
  rw [Given, present]

/-- Another field does not matter to what a variable makes of its own. -/
theorem given_put_iff {value' : other.kind.Value} (ne : other ≠ var) :
    Given lookup (settings.put var value) other value' ↔ Given lookup settings other value' := by
  rw [Given, Given, get_put_of_ne ne]

theorem Given.parses (given : Given lookup settings var value) (present : lookup var.name = some raw) :
    var.Parses raw :=
  ⟨value, (given_of_present present).1 given⟩

theorem Given.unique (given : Given lookup settings var value)
    (given' : Given lookup settings var value') : value = value' := by
  cases found : lookup var.name with
  | none =>
    rw [given_of_absent found] at given given'
    rw [given, given']
  | some raw =>
    rw [given_of_present found, ← Variable.read_eq_ok_iff] at given given'
    exact Except.ok.inj (given.symm.trans given')

end Given

/-- The next variable gives its field a value, or the loading ends with an error that names it. -/
theorem loadOver_cons_cases (lookup : String → Option String) (settings : Settings) (var : Variable)
    (rest : List Variable) :
    (∃ value, Given lookup settings var value ∧
      loadOver lookup settings (var :: rest) = loadOver lookup (settings.put var value) rest) ∨
    ∃ raw reason, lookup var.name = some raw ∧ ¬ var.Parses raw ∧
      loadOver lookup settings (var :: rest) = .error (.invalidValue var raw reason) := by
  rw [loadOver]
  cases there : lookup var.name with
  | none => exact .inl ⟨_, (given_of_absent there).2 rfl, by rw [put_get]⟩
  | some raw =>
    dsimp only
    rw [set_eq]
    cases found : var.read raw with
    | ok value => exact .inl ⟨value, (given_of_present there).2 (Variable.read_eq_ok_iff.1 found), rfl⟩
    | error reason =>
      refine .inr ⟨raw, reason, rfl, ?_, rfl⟩
      rintro ⟨value, means⟩
      rw [Variable.read_eq_ok_iff.2 means] at found
      nomatch found

/-- A field has what its own variable gives it, and without a variable to read it stays. -/
theorem fields_of_loadOver {vars : List Variable} {loaded : Settings} (distinct : vars.Nodup)
    (done : loadOver lookup settings vars = .ok loaded) :
    (∀ var ∈ vars, Given lookup settings var (loaded.get var)) ∧
      ∀ var ∉ vars, loaded.get var = settings.get var := by
  induction vars generalizing settings with
  | nil =>
    cases done
    simp
  | cons var rest ih =>
    rw [List.nodup_cons] at distinct
    obtain ⟨new, distinct⟩ := distinct
    rcases loadOver_cons_cases lookup settings var rest with
      ⟨value, given, next⟩ | ⟨_, _, -, -, failed⟩
    · -- what the first variable sets stays, because none of the others is the same
      obtain ⟨later, kept⟩ := ih distinct (next ▸ done)
      have own : loaded.get var = value := (kept var new).trans (get_put ..)
      refine ⟨fun other there => ?_, fun other absent => ?_⟩
      · rcases List.mem_cons.1 there with rfl | there
        · rwa [own]
        · have ne : other ≠ var := ne_of_mem_of_not_mem there new
          exact (given_put_iff ne).1 (later other there)
      · rw [List.mem_cons, not_or] at absent
        rw [kept other absent.2, get_put_of_ne absent.1]
    · rw [failed] at done
      nomatch done

/-- An error names the first variable whose text means nothing, with its whole text. -/
theorem first_of_loadOver_error {vars : List Variable} {error : SettingsError}
    (failed : loadOver lookup settings vars = .error error) :
    ∃ before var later raw reason, vars = before ++ var :: later ∧
      (∀ earlier ∈ before, ∀ raw, lookup earlier.name = some raw → earlier.Parses raw) ∧
      lookup var.name = some raw ∧ ¬ var.Parses raw ∧ error = .invalidValue var raw reason := by
  induction vars generalizing settings with
  | nil => nomatch failed
  | cons var rest ih =>
    rcases loadOver_cons_cases lookup settings var rest with
      ⟨value, given, next⟩ | ⟨raw, reason, present, bad, first⟩
    · obtain ⟨before, later, tail, raw, reason, rfl, fine, found⟩ := ih (next ▸ failed)
      refine ⟨var :: before, later, tail, raw, reason, rfl, ?_, found⟩
      rw [List.forall_mem_cons]
      exact ⟨fun raw present => given.parses present, fine⟩
    · rw [first] at failed
      cases failed
      exact ⟨[], var, rest, raw, reason, rfl, nofun, present, bad, rfl⟩

theorem load_eq_ok_iff :
    load lookup = .ok settings ↔ ∀ var, Given lookup default var (settings.get var) := by
  have fields {loaded : Settings} (done : load lookup = .ok loaded) (var : Variable) :
      Given lookup default var (loaded.get var) :=
    (fields_of_loadOver Variable.all_nodup done).1 var (Variable.mem_all var)
  refine ⟨fields, fun given => ?_⟩
  cases outcome : load lookup with
  | ok loaded => exact congrArg _ (ext_get fun var => (fields outcome var).unique (given var))
  | error error =>
    obtain ⟨-, var, -, raw, -, -, -, present, bad, -⟩ := first_of_loadOver_error outcome
    exact absurd ((given var).parses present) bad

/-- Loading succeeds if all texts that are there can be read. -/
theorem exists_load_iff : (∃ settings, load lookup = .ok settings) ↔
    ∀ (var : Variable) (raw : String), lookup var.name = some raw → var.Parses raw := by
  constructor
  · rintro ⟨settings, done⟩ var raw present
    exact (load_eq_ok_iff.1 done var).parses present
  · intro parses
    cases outcome : load lookup with
    | ok settings => exact ⟨settings, rfl⟩
    | error error =>
      obtain ⟨-, var, -, raw, -, -, -, present, bad, -⟩ := first_of_loadOver_error outcome
      exact absurd (parses var raw present) bad

/-- The environment with each field written to its own variable, and more text around it. -/
def environment (settings : Settings) (before after : Variable → List Char) (name : String) :
    Option String :=
  (Variable.all.find? fun var => var.name = name).bind fun var =>
    (var.kind.write (settings.get var)).map (var.kind.pad (before var) (after var))

/-- A field for which nothing is written is the override, and there is none by default. -/
theorem get_of_unwritten (unwritten : var.kind.write (settings.get var) = none) :
    settings.get var = default.get var := by
  cases var with
  | nonceOverride => exact Option.map_eq_none_iff.1 unwritten
  | _ => nomatch unwritten

/-- The settings of a node are its environment, read field by field. Loading gives settings exactly if each
field is the value that the text of its own variable means, or the default without that variable; so it
succeeds exactly if every variable that is there and is not taken as it is means some value, and a change
of one variable changes no other field. The error of a loading that fails names the first variable whose
text means nothing, with the whole of that text. Settings that are written to an environment, with white
space around all values but those that are taken as they are, are loaded again. -/
theorem load_by_variable :
    (∀ (lookup : String → Option String) (settings : Settings), load lookup = .ok settings ↔
      ∀ var, Given lookup default var (settings.get var)) ∧
    (∀ lookup : String → Option String, (∃ settings, load lookup = .ok settings) ↔
      ∀ (var : Variable) (raw : String), var.kind ≠ .verbatim → lookup var.name = some raw →
        var.Parses raw) ∧
    (∀ (lookup lookup' : String → Option String) (settings settings' : Settings) (var : Variable),
      (∀ other, other ≠ var → lookup other.name = lookup' other.name) →
      load lookup = .ok settings → load lookup' = .ok settings' →
        ∀ other, other ≠ var → settings.get other = settings'.get other) ∧
    (∀ (lookup : String → Option String) (error : SettingsError), load lookup = .error error →
      ∃ before var later raw reason, Variable.all = before ++ var :: later ∧
        (∀ earlier ∈ before, ∀ raw, lookup earlier.name = some raw → earlier.Parses raw) ∧
        lookup var.name = some raw ∧ ¬ var.Parses raw ∧ error = .invalidValue var raw reason) ∧
    ∀ (settings : Settings) (before after : Variable → List Char),
      (∀ var, (∀ c ∈ before var, isBlank c = true) ∧ ∀ c ∈ after var, isBlank c = true) →
        load (settings.environment before after) = .ok settings := by
  refine ⟨fun lookup settings => load_eq_ok_iff, fun lookup => ?_,
    fun lookup lookup' settings settings' var same done done' other ne => ?_,
    fun lookup error => first_of_loadOver_error, fun settings before after blank => ?_⟩
  · rw [exists_load_iff]
    refine ⟨fun parses var raw _ => parses var raw, fun parses var raw present => ?_⟩
    by_cases verbatim : var.kind = .verbatim
    · exact Variable.parses_of_verbatim verbatim raw
    · exact parses var raw verbatim present
  · have given := load_eq_ok_iff.1 done other
    have given' := load_eq_ok_iff.1 done' other
    rw [Given, ← same other ne] at given'
    exact given.unique given'
  · rw [load_eq_ok_iff]
    intro var
    have own : settings.environment before after var.name =
        (var.kind.write (settings.get var)).map (var.kind.pad (before var) (after var)) := by
      rw [environment, Variable.find?_name]
      rfl
    cases written : var.kind.write (settings.get var) with
    | none =>
      rw [written] at own
      exact (given_of_absent own).2 (get_of_unwritten written)
    | some text =>
      rw [written] at own
      exact (given_of_present own).2 (Variable.means_pad (blank var).1 (blank var).2 written)

/-- Of two variables that cannot be read, the one that comes first in the order is named. -/
example : load (fun name => if name = "NS_SHUTDOWN_TIMEOUT_SECS" then some "-1"
    else if name = "NS_GAS_LIMIT" then some " ten " else none) =
      .error (.invalidValue .gasLimit " ten " "invalid digit found in string") := by
  decide

end Settings

end Registrar
