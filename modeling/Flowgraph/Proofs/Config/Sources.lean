import Flowgraph.Config
import Flowgraph.Proofs.Json.RoundTrip

/-!
# The two sources of a configuration

Three of the settings are numbers. Each can be set by a variable of the environment, or in a file,
and either way the others keep their defaults. The two readers have nothing in common: one takes the
blanks off a text and reads its digits, the other reads a document and looks for a member. They give
the same configuration for every number that fits the setting, up to the ends of its range, but for
zero. A zero in a file is the number zero. In the environment, where there is no null, a zero
switches the limit on hops off, and as a number of workers it is passed over.

* `Config.read?_file` — what a file gives that holds a single setting.
* `Config.ofEnvironment_environment` — what an environment gives in which a single variable is set.
* `Config.sources_agree` — for which numbers the two are the same.
-/

namespace Flowgraph

namespace Decimal

/-- A natural number is read from its digits, if it is within the bound. -/
theorem readNat_natDigits {high n : Nat} (h : n ≤ high) : readNat high (natDigits n) = some n := by
  have hdigits : ∀ c ∈ natDigits n, isDigit c = true := fun _ =>
    Json.Number.isDigit_of_mem_natDigits
  have hvalue : digitsValue (natDigits n) = n := Nat.ofDigitChars_ten_toDigits
  have hne : natDigits n ≠ [] := Nat.toDigits_ne_nil
  -- the first digit is no sign
  have hplus : ∀ rest, natDigits n ≠ '+' :: rest := fun rest hcs => by
    have hdigit := hdigits '+' (hcs ▸ List.mem_cons_self)
    exact absurd hdigit (by decide)
  rw [readNat, if_pos ⟨hne, List.all_eq_true.mpr hdigits, hvalue.symm ▸ h⟩, hvalue]
  exact hplus

end Decimal

/-- A text without blanks is left as it is. -/
theorem Text.trim_of_forall {s : List Char} (h : ∀ c ∈ s, isBlank c = false) : trim s = s := by
  have hstart : ∀ {l : List Char}, (∀ c ∈ l, isBlank c = false) → l.dropWhile isBlank = l := by
    intro l hl
    cases l with
    | nil => rfl
    | cons c rest => rw [List.dropWhile_cons_of_neg (by simp [hl c List.mem_cons_self])]
  rw [trim, trimStart, hstart h, trimEnd, hstart fun c hc => h c (List.mem_reverse.mp hc),
    List.reverse_reverse]

namespace Config

/-! ### Settings -/

/-- The settings that are numbers. -/
inductive Quantity where
  | workers
  | maxHops
  | drainMillis
deriving DecidableEq

namespace Quantity

/-- The variable of the environment that sets it. -/
def name : Quantity → String
  | .workers => workersVar
  | .maxHops => maxHopsVar
  | .drainMillis => drainMillisVar

/-- The member of a file that sets it. -/
def key : Quantity → String
  | .workers => "worker_pool_size"
  | .maxHops => "max_hops"
  | .drainMillis => "drain_timeout_ms"

/-- The largest number that fits. -/
def bound : Quantity → Nat
  | .workers => Decimal.maxNat64
  | .maxHops => Decimal.maxNat32
  | .drainMillis => Decimal.maxNat64

/-- The defaults with the number in its place. -/
def config (n : Nat) : Quantity → Config
  | .workers => { workers := n }
  | .maxHops => { maxHops := some n }
  | .drainMillis => { drainMillis := n }

/-- What a zero stands for in the environment: no limit on hops, and as many workers as there are by
default. -/
def ofZero : Quantity → Config
  | .workers => {}
  | .maxHops => { maxHops := none }
  | .drainMillis => { drainMillis := 0 }

/-- An environment in which its variable is the only one. -/
def environment (q : Quantity) (n : Nat) : String → Option String := fun name =>
  if name = q.name then some (String.ofList (Decimal.natDigits n)) else none

/-- The text of a file that holds the setting and nothing else. -/
def file (q : Quantity) (n : Nat) : String :=
  "\x7b\"" ++ q.key ++ "\": " ++ String.ofList (Decimal.natDigits n) ++ "\x7d"

end Quantity

variable (q : Quantity) {n : Nat}

/-! ### Files -/

open Json (Document)

theorem toList_file (n : Nat) :
    (q.file n).toList = ['\x7b'] ++ (Json.stringChars q.key ++
      ([':'] ++ ([' '] ++ (Decimal.natDigits n ++ ['\x7d'])))) := by
  have hkey : Json.stringChars q.key = '"' :: (q.key.toList ++ ['"']) := by cases q <;> rfl
  rw [Quantity.file, hkey]
  simp

/-- The document of such a file has a single member, a number. -/
theorem parse?_file (n : Nat) : Document.parse? (q.file n) =
    some (.object [(some q.key, .number ⟨false, ⟨n, 0⟩, true⟩)]) := by
  have hdigits : Json.Spells (Decimal.natDigits n) [.number ⟨false, ⟨n, 0⟩, true⟩] ['\x7d'] :=
    Json.spells_of_tokens (Json.Number.tokens_natDigits n) (by refine ⟨?_, ?_, ?_, ?_⟩ <;> decide)
  have hspelt := ((Json.spells_openObject _).append ((Json.spells_stringChars _ q.key).append
    ((Json.spells_colon _).append ((Json.spells_space (c := ' ') rfl _).append
      (hdigits.append (Json.spells_closeObject []))))))
  refine Document.parse?_of_tokens ?_
  rw [toList_file]
  rw [Json.Spells, List.append_nil, Json.tokens, Option.map_some, List.append_nil] at hspelt
  exact hspelt

/-- The member is put into the place of its setting, and the other places stay empty. -/
theorem record?_member (d : Document) : (Document.object [(some q.key, d)]).record?
    [["data_dir"], ["worker_pool_size"], ["max_hops"], ["drain_timeout_ms"]] =
      some (match q with
        | .workers => [none, some d, none, none]
        | .maxHops => [none, none, some d, none]
        | .drainMillis => [none, none, none, some d]) := by
  cases q <;> rfl

/-- **A file with a single number** sets just that. -/
theorem read?_file (h : n ≤ q.bound) : Config.read? (q.file n) = some (q.config n) := by
  have hread : ∀ high, n ≤ high →
      Document.nat? high (.number ⟨false, ⟨n, 0⟩, true⟩) = some n := fun high h => by
    rw [Document.nat?]
    simp [h]
  have hnull : ∀ high, n ≤ high →
      Document.nullable? (Document.nat? high) (.number ⟨false, ⟨n, 0⟩, true⟩) = some (some n) :=
    fun high h => congrArg (Option.map some) (hread high h)
  rw [read?, parse?_file, Option.bind_some, ofDocument?, record?_member]
  -- the other settings take their defaults
  cases q with
  | workers =>
    dsimp only [Document.orDefault]
    rw [hread Decimal.maxNat64 h]
    rfl
  | maxHops =>
    dsimp only [Document.orDefault]
    rw [hnull Decimal.maxNat32 h]
    rfl
  | drainMillis =>
    dsimp only [Document.orDefault]
    rw [hread Decimal.maxNat64 h]
    rfl

/-! ### The environment -/

/-- What an environment gives, setting by setting. -/
theorem ofEnvironment_fst (lookup : String → Option String) : (ofEnvironment lookup).1 =
    { dataDir := ((lookup dataDirVar).filter fun d => !Text.isBlankText d.toList).getD "workflow"
      workers := ((number? lookup workersVar Decimal.maxNat64).1.filter (· ≠ 0)).getD 20
      maxHops := match (number? lookup maxHopsVar Decimal.maxNat32).1 with
        | none => some 1024
        | some n => if n = 0 then none else some n
      drainMillis := (number? lookup drainMillisVar Decimal.maxNat64).1.getD 5000 } := rfl

/-- The variable is read as the number, and a variable that is not there as none. -/
theorem number?_environment (h : n ≤ q.bound) (q' : Quantity) :
    (number? (q.environment n) q'.name q'.bound).1 = if q' = q then some n else none := by
  -- no digit is blank, so nothing is trimmed
  have hblank : ∀ c ∈ Decimal.natDigits n, Text.isBlank c = false := fun c hc => by
    refine Bool.eq_false_iff.mpr fun hblank => ?_
    have hdigit := Json.Number.isDigit_of_mem_natDigits hc
    rw [Json.isDigit_of_isBlank hblank] at hdigit
    cases hdigit
  rw [number?, Quantity.environment]
  by_cases hq : q' = q
  · subst hq
    rw [if_pos rfl, if_pos rfl]
    dsimp only
    rw [String.toList_ofList, Text.trim_of_forall hblank, Decimal.readNat_natDigits h]
  · have hname : q'.name ≠ q.name := by revert hq; cases q <;> cases q' <;> decide
    rw [if_neg hname, if_neg hq]

/-- **An environment with a single number** sets just that, if it is not zero. -/
theorem ofEnvironment_environment (h : n ≤ q.bound) :
    (ofEnvironment (q.environment n)).1 = if n = 0 then q.ofZero else q.config n := by
  have hdir : q.environment n dataDirVar = none := if_neg (by cases q <;> decide)
  have hworkers := number?_environment q h .workers
  have hhops := number?_environment q h .maxHops
  have hdrain := number?_environment q h .drainMillis
  simp only [Quantity.name, Quantity.bound] at hworkers hhops hdrain
  rw [ofEnvironment_fst, hdir, hworkers, hhops, hdrain]
  by_cases hn : n = 0
  · subst hn
    -- a zero is passed over for the default, except for the time to drain
    cases q <;> rfl
  · rw [if_neg hn]
    cases q <;> simp [hn, Option.filter, Quantity.config]

/-! ### Both -/

/-- A zero is what the number zero is only where it is no special case. -/
theorem Quantity.config_zero_eq_iff : q.config 0 = q.ofZero ↔ q = .drainMillis := by
  cases q <;> decide

/-- **The two sources agree** on a number that fits a setting exactly if it is not zero, or is the
time that a shutdown waits. -/
theorem sources_agree (h : n ≤ q.bound) :
    Config.read? (q.file n) = some (q.config n) ∧
    (Config.read? (q.file n) = some (ofEnvironment (q.environment n)).1 ↔
      n ≠ 0 ∨ q = .drainMillis) ∧
    (n = 0 → (ofEnvironment (q.environment n)).1 = q.ofZero) := by
  have hfile := read?_file q h
  have henvironment := ofEnvironment_environment q h
  refine ⟨hfile, ?_, ?_⟩
  · rw [hfile, henvironment, Option.some.injEq]
    by_cases hn : n = 0
    · subst hn
      -- at zero they agree only where the environment may say so
      rw [if_pos rfl, Quantity.config_zero_eq_iff]
      exact ⟨.inr, fun hor => hor.resolve_left fun hne => hne rfl⟩
    · rw [if_neg hn]
      exact ⟨fun _ => .inl hn, fun _ => rfl⟩
  · intro hn
    rw [henvironment, if_pos hn]

/-- The largest limit on hops is the same from both. -/
theorem sources_agree_largest : 4294967295 ≤ Quantity.maxHops.bound ∧
    Config.read? (Quantity.maxHops.file 4294967295) = some { maxHops := some 4294967295 } ∧
    Config.read? (Quantity.maxHops.file 4294967295) =
      some (ofEnvironment (Quantity.maxHops.environment 4294967295)).1 := by
  have hfits : 4294967295 ≤ Quantity.maxHops.bound := Nat.le_refl _
  obtain ⟨hfile, hiff, -⟩ := sources_agree .maxHops hfits
  exact ⟨hfits, hfile, hiff.mpr (.inl (by decide))⟩

/-- **A zero is a limit in a file and no limit in the environment.** -/
theorem sources_disagree_zero :
    Config.read? "\x7b\"max_hops\": 0\x7d" = some { maxHops := some 0 } ∧
    (ofEnvironment fun name => if name = "TRIPWIRE_MAX_HOPS" then some "0" else none).1 =
      { maxHops := none } ∧
    ¬ ∀ (q : Quantity) (n : Nat), n ≤ q.bound →
      Config.read? (q.file n) = some (ofEnvironment (q.environment n)).1 := by
  have hfile := read?_file .maxHops (Nat.zero_le _)
  have henvironment := ofEnvironment_environment .maxHops (Nat.zero_le _)
  refine ⟨hfile, henvironment, fun hall => ?_⟩
  have heq := hall .maxHops 0 (Nat.zero_le _)
  rw [hfile, henvironment] at heq
  exact absurd heq (by decide)

end Config

end Flowgraph
