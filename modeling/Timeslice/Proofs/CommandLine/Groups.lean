import Mathlib.Data.List.Induction
import Timeslice.CommandLine

/-! # Groups of arguments

An option and its value are a group, and arguments are read group by group. What comes of groups
that are in order is told by the last group of each kind; reading ends at the first argument that
starts no such group.
-/

namespace Timeslice.CommandLine

/-! ## Flags and values -/

theorem Setting.ofFlag?_eq_some_iff {flag : String} {setting : Setting} :
    ofFlag? flag = some setting ↔
      flag ∈ match setting with
        | config => ["--config", "-c"]
        | quantum => ["--quantum", "-q"]
        | maxTicks => ["--max-ticks"]
        | logLevel => ["--log-level"] := by
  unfold ofFlag?
  split
  case h_7 => cases setting <;> simp_all
  all_goals cases setting <;> simp

def Setting.refusal? (value : String) : Setting → Option UsageError
  | config => none
  | quantum =>
    if (Text.signedIn? Word.least64 Word.largest64 value.toList).isSome then none
    else some (.invalidQuantum value)
  | maxTicks =>
    if (Text.unsignedIn? Word.limit value.toList).isSome then none
    else some (.invalidMaxTicks value)
  | logLevel =>
    let name := String.ofList (value.toList.map Char.toLower)
    if (Log.Level.named.lookup name).isSome then none else some (.invalidLogLevel name)

theorem isSome_lookup_named {name : String} :
    (Log.Level.named.lookup name).isSome ↔ name ∈ ["debug", "info", "warn", "error"] := by
  simp [Log.Level.named, List.lookup_isSome_iff]

/-- Any text does for the path of a scenario. A quantum is a signed and a number of ticks an
unsigned 64-bit integer, and the name of a log level is in letters of either case. -/
theorem Setting.refusal?_eq_none_iff {setting : Setting} {value : String} :
    setting.refusal? value = none ↔
      match setting with
      | config => True
      | quantum => (Text.signedIn? Word.least64 Word.largest64 value.toList).isSome
      | maxTicks => (Text.unsignedIn? Word.limit value.toList).isSome
      | logLevel => String.ofList (value.toList.map Char.toLower) ∈
          ["debug", "info", "warn", "error"] := by
  have unrefused (p : Prop) [Decidable p] (e : UsageError) :
      (if p then none else some e) = none ↔ p := by
    rw [ite_eq_left_iff, Decidable.not_imp_comm]
    simp
  cases setting with
  | config => exact iff_of_true rfl trivial
  | quantum | maxTicks => exact unrefused _ _
  | logLevel => exact (unrefused _ _).trans isSome_lookup_named

/-- An option with its value, if it takes one. A value may be any text, also that of an option. -/
inductive Group where
  | valued (setting : Setting) (flag : String) (spelled : Setting.ofFlag? flag = some setting)
      (value : String)
  | json

namespace Group

def kind : Group → Option Setting
  | valued setting _ _ _ => some setting
  | json => none

def arguments : Group → List String
  | valued _ flag _ value => [flag, value]
  | json => ["--json"]

def value? (setting : Setting) : Group → Option String
  | valued own _ _ value => if own = setting then some value else none
  | json => none

def IsValid : Group → Prop
  | valued setting _ _ value => setting.refusal? value = none
  | json => True

end Group

def last? (setting : Setting) (groups : List Group) : Option String :=
  (groups.filterMap (·.value? setting)).getLast?

def Options.ofGroups (groups : List Group) : Options where
  config := last? .config groups
  quantum := (last? .quantum groups).bind fun value =>
    Text.signedIn? Word.least64 Word.largest64 value.toList
  maxTicks := (last? .maxTicks groups).bind fun value => Text.unsignedIn? Word.limit value.toList
  logLevel := (last? .logLevel groups).bind fun value =>
    Log.Level.named.lookup (String.ofList (value.toList.map Char.toLower))
  json := groups.any (·.kind.isNone)

/-! ## One more group -/

theorem last?_concat (setting : Setting) (groups : List Group) (group : Group) :
    last? setting (groups ++ [group]) = (group.value? setting).or (last? setting groups) := by
  unfold last?
  cases own : group.value? setting with
  | none => simp [List.filterMap_append, own]
  | some value => simp [List.filterMap_append, own]

theorem apply_of_refused {options : Options} {setting : Setting} {value : String}
    {e : UsageError} (refused : setting.refusal? value = some e) :
    setting.apply options value = .error e := by
  unfold Setting.refusal? at refused
  cases setting with
  | config => cases refused
  | quantum | maxTicks | logLevel =>
      obtain ⟨unread, same⟩ := Option.ite_none_left_eq_some.1 refused
      cases same
      simp only [Setting.apply, Option.not_isSome_iff_eq_none.1 unread]

/-- A setting that is made comes to one more group. -/
theorem apply_ofGroups {setting : Setting} {flag value : String} (groups : List Group)
    (spelled : Setting.ofFlag? flag = some setting) (valid : setting.refusal? value = none) :
    setting.apply (.ofGroups groups) value =
      .ok (.ofGroups (groups ++ [.valued setting flag spelled value])) := by
  rw [Setting.refusal?_eq_none_iff] at valid
  cases setting with
  | config => simp [Setting.apply, Options.ofGroups, last?_concat, Group.value?, Group.kind]
  | quantum | maxTicks =>
      obtain ⟨_, read⟩ := Option.isSome_iff_exists.1 valid
      simp [Setting.apply, Options.ofGroups, last?_concat, Group.value?, Group.kind, read]
  | logLevel =>
      obtain ⟨_, read⟩ := Option.isSome_iff_exists.1 (isSome_lookup_named.2 valid)
      simp [Setting.apply, Options.ofGroups, last?_concat, Group.value?, Group.kind, read]

theorem ofGroups_json (groups : List Group) :
    Options.ofGroups (groups ++ [.json]) = { Options.ofGroups groups with json := true } := by
  simp [Options.ofGroups, last?_concat, Group.value?, Group.kind]

theorem parseOnto_group {group : Group} (groups : List Group) (valid : group.IsValid)
    (rest : List String) : parseOnto (.ofGroups groups) (group.arguments ++ rest) =
      parseOnto (.ofGroups (groups ++ [group])) rest := by
  cases group with
  | json =>
      rw [ofGroups_json]
      rfl
  | valued setting flag spelled value =>
      have read : parseOnto (.ofGroups groups) (flag :: value :: rest) =
          (setting.apply (.ofGroups groups) value).bind (parseOnto · rest) := by
        rw [parseOnto, spelled]
        rfl
      exact read.trans (by rw [apply_ofGroups groups spelled valid]; rfl)

/-- Reading valid groups leaves the rest to be read on top of what they come to. -/
theorem parseOnto_groups {groups : List Group} (before : List Group)
    (valid : ∀ group ∈ groups, group.IsValid) (rest : List String) :
    parseOnto (.ofGroups before) (groups.flatMap Group.arguments ++ rest) =
      parseOnto (.ofGroups (before ++ groups)) rest := by
  induction groups generalizing before with
  | nil => rw [List.append_nil]; rfl
  | cons group groups ih =>
      obtain ⟨first, others⟩ := List.forall_mem_cons.1 valid
      rw [List.flatMap_cons, List.append_assoc, parseOnto_group before first,
        ih (before ++ [group]) others, List.append_assoc]
      rfl

/-! ## Where reading ends -/

/-- `Stops rest e`: the arguments start with no valid group, which is the error. -/
inductive Stops : List String → UsageError → Prop
  | unknown {text : String} (rest : List String) (unspelled : Setting.ofFlag? text = none)
      (plain : text ∉ ["--json", "--help", "-h"]) : Stops (text :: rest) (.unknownOption text)
  | missing {flag : String} {setting : Setting} (spelled : Setting.ofFlag? flag = some setting) :
      Stops [flag] (.missingValue setting)
  | invalid {flag value : String} {setting : Setting} {e : UsageError} (rest : List String)
      (spelled : Setting.ofFlag? flag = some setting) (refused : setting.refusal? value = some e) :
      Stops (flag :: value :: rest) e

/-- `Scans arguments groups rest`: the arguments start with valid groups, and the rest is left. -/
structure Scans (arguments : List String) (groups : List Group) (rest : List String) : Prop where
  valid : ∀ group ∈ groups, group.IsValid
  split : arguments = groups.flatMap Group.arguments ++ rest

theorem Scans.nil (arguments : List String) : Scans arguments [] arguments where
  valid := List.forall_mem_nil _
  split := rfl

theorem Scans.whole {groups : List Group} (valid : ∀ group ∈ groups, group.IsValid) :
    Scans (groups.flatMap Group.arguments) groups [] where
  valid
  split := (List.append_nil _).symm

theorem Scans.cons {arguments rest : List String} {groups : List Group}
    (scans : Scans arguments groups rest) (group : Group) (valid : group.IsValid) :
    Scans (group.arguments ++ arguments) (group :: groups) rest where
  valid := List.forall_mem_cons.2 ⟨valid, scans.valid⟩
  split := by rw [List.flatMap_cons, List.append_assoc, ← scans.split]

theorem Scans.parse_eq {arguments rest : List String} {groups : List Group}
    (scans : Scans arguments groups rest) :
    parse arguments = parseOnto (.ofGroups groups) rest := by
  have start : Options.none = .ofGroups [] := rfl
  rw [parse, start, scans.split, parseOnto_groups [] scans.valid, List.nil_append]

theorem Stops.parseOnto_eq {rest : List String} {e : UsageError} (stops : Stops rest e)
    (options : Options) : parseOnto options rest = .error e := by
  cases stops with
  | unknown rest unspelled plain =>
      simp only [List.mem_cons, List.not_mem_nil, or_false, not_or] at plain
      rw [parseOnto, unspelled]
      simp only [plain, if_false, or_self]
  | missing spelled => rw [parseOnto, spelled]
  | invalid rest spelled refused =>
      rw [parseOnto, spelled]
      simp only [apply_of_refused refused]
      rfl

inductive Ends : List String → Prop
  | nothing : Ends []
  | help {flag : String} (rest : List String) (calls : flag ∈ ["--help", "-h"]) :
      Ends (flag :: rest)
  | error {rest : List String} {e : UsageError} (stops : Stops rest e) : Ends rest

theorem exists_scans_of_unspelled {argument : String} {arguments : List String}
    (unspelled : Setting.ofFlag? argument = none)
    (tail : ∃ groups rest, Scans arguments groups rest ∧ Ends rest) :
    ∃ groups rest, Scans (argument :: arguments) groups rest ∧ Ends rest := by
  by_cases json : argument = "--json"
  · subst json
    obtain ⟨groups, rest, scans, ends⟩ := tail
    exact ⟨.json :: groups, rest, scans.cons .json trivial, ends⟩
  · refine ⟨[], argument :: arguments, .nil _, ?_⟩
    by_cases calls : argument ∈ ["--help", "-h"]
    · exact .help arguments calls
    · exact .error (.unknown arguments unspelled (List.not_mem_cons_of_ne_of_not_mem json calls))

/-- All arguments can be read up to where reading ends. -/
theorem exists_scans (arguments : List String) :
    ∃ groups rest, Scans arguments groups rest ∧ Ends rest := by
  induction arguments using List.twoStepInduction with
  | nil => exact ⟨[], [], .nil _, .nothing⟩
  | singleton argument =>
      cases spelled : Setting.ofFlag? argument with
      | none => exact exists_scans_of_unspelled spelled ⟨[], [], .nil _, .nothing⟩
      | some setting => exact ⟨[], [argument], .nil _, .error (.missing spelled)⟩
  | cons_cons argument value rest ih ih' =>
      cases spelled : Setting.ofFlag? argument with
      | none => exact exists_scans_of_unspelled spelled (ih' value)
      | some setting =>
          cases refused : setting.refusal? value with
          | some e => exact ⟨[], _, .nil _, .error (.invalid rest spelled refused)⟩
          | none =>
              obtain ⟨groups, rest, scans, ends⟩ := ih
              exact ⟨.valued setting argument spelled value :: groups, rest,
                scans.cons (.valued setting argument spelled value) refused, ends⟩

/-! ## What arguments come to -/

inductive Means (arguments : List String) : Except UsageError Command → Prop
  | simulate {groups : List Group} {config : String} (scans : Scans arguments groups [])
      (configured : last? .config groups = some config) :
      Means arguments (.ok (.simulate config (.ofGroups groups)))
  | unconfigured {groups : List Group} (scans : Scans arguments groups [])
      (unconfigured : last? .config groups = none) : Means arguments (.error .missingConfig)
  | help {groups : List Group} {flag : String} {rest : List String}
      (scans : Scans arguments groups (flag :: rest)) (calls : flag ∈ ["--help", "-h"]) :
      Means arguments (.ok .help)
  | stopped {groups : List Group} {rest : List String} {e : UsageError}
      (scans : Scans arguments groups rest) (stops : Stops rest e) : Means arguments (.error e)

theorem Means.parse_eq {arguments : List String} {outcome : Except UsageError Command}
    (means : Means arguments outcome) : parse arguments = outcome := by
  cases means with
  | @simulate groups config scans configured =>
      have own : (Options.ofGroups groups).config = some config := configured
      rw [scans.parse_eq, parseOnto, own]
  | @unconfigured groups scans unconfigured =>
      have own : (Options.ofGroups groups).config = none := unconfigured
      rw [scans.parse_eq, parseOnto, own]
  | help scans calls =>
      rw [scans.parse_eq]
      simp only [List.mem_cons, List.not_mem_nil, or_false] at calls
      rcases calls with rfl | rfl <;> rfl
  | stopped scans stops => rw [scans.parse_eq, stops.parseOnto_eq]

theorem means_parse (arguments : List String) : Means arguments (parse arguments) := by
  have meant {outcome : Except UsageError Command} (means : Means arguments outcome) :
      Means arguments (parse arguments) := by
    rwa [means.parse_eq]
  obtain ⟨groups, rest, scans, ends⟩ := exists_scans arguments
  cases ends with
  | nothing =>
      cases configured : last? .config groups with
      | none => exact meant (.unconfigured scans configured)
      | some config => exact meant (.simulate scans configured)
  | help rest calls => exact meant (.help scans calls)
  | error stops => exact meant (.stopped scans stops)

theorem Group.value?_eq_none_iff {setting : Setting} {group : Group} :
    group.value? setting = none ↔ group.kind ≠ some setting := by
  cases group with
  | json => simp [value?, kind]
  | valued own flag spelled value => simp [value?, kind]

theorem last?_eq_none_iff {setting : Setting} {groups : List Group} :
    last? setting groups = none ↔ ∀ group ∈ groups, group.kind ≠ some setting := by
  simp only [last?, List.getLast?_eq_none_iff, List.filterMap_eq_nil_iff,
    Group.value?_eq_none_iff]

theorem last?_eq_of_filter_eq {groups groups' : List Group} (setting : Setting)
    (same : groups.filter (·.kind = some setting) = groups'.filter (·.kind = some setting)) :
    last? setting groups = last? setting groups' := by
  have only (groups : List Group) : groups.filterMap (·.value? setting) =
      (groups.filter (·.kind = some setting)).filterMap (·.value? setting) := by
    rw [List.filterMap_filter]
    refine congrArg (List.filterMap · groups) (funext fun group => ?_)
    cases group with
    | json => rfl
    | valued own flag spelled value => simp [Group.value?, Group.kind]
  rw [last?, last?, only, same, ← only]

/-- Groups come to the same in any order that keeps the order within each kind. -/
theorem ofGroups_eq_of_filter_eq {groups groups' : List Group} (permuted : groups.Perm groups')
    (same : ∀ kind, groups.filter (·.kind = kind) = groups'.filter (·.kind = kind)) :
    Options.ofGroups groups' = .ofGroups groups := by
  have last (setting : Setting) : last? setting groups' = last? setting groups :=
    last?_eq_of_filter_eq setting (same setting).symm
  simp only [Options.ofGroups, last, permuted.any_eq]

/-- The order of options is irrelevant. Groups that are in order and name a scenario are read; of
each kind the last group counts, and the groups may be put in any other order that keeps the order
within each kind. Reading fails at the first argument, from the left, that is no option, is an
option without a value, or has a value after it that is refused; or else for want of a scenario. A
call for help ends the reading before that. -/
theorem order_irrelevant :
    (∀ groups : List Group, (∀ group ∈ groups, group.IsValid) →
      (∃ group ∈ groups, group.kind = some .config) →
      ∃ config, last? .config groups = some config ∧
        parse (groups.flatMap Group.arguments) = .ok (.simulate config (.ofGroups groups))) ∧
    (∀ groups groups' : List Group, (∀ group ∈ groups, group.IsValid) → groups.Perm groups' →
      (∀ kind, groups.filter (·.kind = kind) = groups'.filter (·.kind = kind)) →
      parse (groups'.flatMap Group.arguments) = parse (groups.flatMap Group.arguments)) ∧
    (∀ arguments e, parse arguments = .error e ↔
      ∃ groups rest, Scans arguments groups rest ∧ (Stops rest e ∨
        rest = [] ∧ (∀ group ∈ groups, group.kind ≠ some .config) ∧ e = .missingConfig)) ∧
    ∀ arguments, parse arguments = .ok .help ↔
      ∃ groups flag rest, Scans arguments groups (flag :: rest) ∧ flag ∈ ["--help", "-h"] := by
  refine ⟨fun groups valid configured => ?_, fun groups groups' valid permuted same => ?_,
    fun arguments e => ⟨fun parsed => ?_, ?_⟩, fun arguments => ⟨fun parsed => ?_, ?_⟩⟩
  · obtain ⟨group, member, kind⟩ := configured
    have named : last? .config groups ≠ none := fun unnamed =>
      last?_eq_none_iff.1 unnamed group member kind
    obtain ⟨config, last⟩ := Option.ne_none_iff_exists'.1 named
    exact ⟨config, last, (Means.simulate (.whole valid) last).parse_eq⟩
  · have valid' : ∀ group ∈ groups', group.IsValid := fun group member =>
      valid group (permuted.mem_iff.2 member)
    rw [(Scans.whole valid').parse_eq, (Scans.whole valid).parse_eq,
      ofGroups_eq_of_filter_eq permuted same]
  · have means := means_parse arguments
    rw [parsed] at means
    cases means with
    | unconfigured scans unconfigured =>
        exact ⟨_, _, scans, .inr ⟨rfl, last?_eq_none_iff.1 unconfigured, rfl⟩⟩
    | stopped scans stops => exact ⟨_, _, scans, .inl stops⟩
  · rintro ⟨groups, rest, scans, stops | ⟨rfl, unconfigured, rfl⟩⟩
    · exact (Means.stopped scans stops).parse_eq
    · exact (Means.unconfigured scans (last?_eq_none_iff.2 unconfigured)).parse_eq
  · have means := means_parse arguments
    rw [parsed] at means
    cases means with
    | help scans calls => exact ⟨_, _, _, scans, calls⟩
  · rintro ⟨groups, flag, rest, scans, calls⟩
    exact (Means.help scans calls).parse_eq

/-- A scenario whose file is called like an option, after a quantum that does not count, and before
one that does. -/
theorem order_irrelevant_of_json :
    parse ["-q", "5", "--config", "--json", "--quantum", "-2"] =
        .ok (.simulate "--json" ⟨some "--json", some (-2), none, none, false⟩) ∧
      parse ["--config", "--json", "-q", "5", "--quantum", "-2"] =
        parse ["-q", "5", "--config", "--json", "--quantum", "-2"] ∧
      parse ["--json", "-q", "five", "--help"] = .error (.invalidQuantum "five") ∧
      parse ["--json", "-h", "-q"] = .ok .help := by
  let config : Group :=
    .valued .config "--config" (Setting.ofFlag?_eq_some_iff.2 (by simp)) "--json"
  let first : Group := .valued .quantum "-q" (Setting.ofFlag?_eq_some_iff.2 (by simp)) "5"
  let second : Group := .valued .quantum "--quantum" (Setting.ofFlag?_eq_some_iff.2 (by simp)) "-2"
  have valid : ∀ group ∈ [first, config, second], group.IsValid := by
    have small : Setting.refusal? "5" .quantum = none := by decide +kernel
    have negative : Setting.refusal? "-2" .quantum = none := by decide +kernel
    simp only [List.forall_mem_cons]
    exact ⟨small, rfl, negative, List.forall_mem_nil _⟩
  have same : ∀ kind, [first, config, second].filter (·.kind = kind) =
      [config, first, second].filter (·.kind = kind) := by
    intro kind
    rcases kind with _ | _ | _ | _ | _ <;> rfl
  obtain ⟨read, rearranged, fails, helps⟩ := order_irrelevant
  obtain ⟨path, last, parsed⟩ := read _ valid ⟨config, by simp, rfl⟩
  obtain rfl : "--json" = path := Option.some.inj last
  have options : Options.ofGroups [first, config, second] =
      ⟨some "--json", some (-2), none, none, false⟩ := by decide +kernel
  rw [options] at parsed
  refine ⟨parsed, rearranged _ _ valid (.swap config first _) same, ?_, ?_⟩
  · refine (fails _ _).2 ⟨[.json], _, ⟨by simp [Group.IsValid], rfl⟩, .inl ?_⟩
    have refused : Setting.refusal? "five" .quantum = some (.invalidQuantum "five") := by
      decide +kernel
    exact .invalid ["--help"] rfl refused
  · exact (helps _).2 ⟨[.json], "-h", ["-q"], ⟨by simp [Group.IsValid], rfl⟩, by simp⟩

end Timeslice.CommandLine
