import Flowgraph.Engine.Palette
import Flowgraph.Proofs.Field.Literals
import Flowgraph.Proofs.Graph.Wiring

/-!
# Offered values

For each field the palette offers values to select: those that the node type declares, or the names
in the catalog if the field selects an event type and has none of its own. Declared options and
names in the catalog are arbitrary texts. The text of a field, on the other hand, is stripped of the
blanks at both its ends before it is compared with them or looked up. So what becomes of an offered
value is decided by what is left of it between its blanks, and a value that begins or ends with one
may be offered and refused.

* `Consumer.takes_iff` — a field takes an offered value exactly if what is left of it is an option
  again, or a name of the same event type.
* `Engine.offers_taken` — which values on the palette are taken.
* `Engine.offer_refused` — a palette with a value that is not.
-/

namespace Flowgraph

namespace Consumer

variable {c : Consumer} {raw v : String} {catalog : Catalog}

/-! ### Readings that choose -/

theorem withRaw_of_raw {α : Type} (hraw : c.raw = some raw)
    (read : String → Except FieldFault α) : c.withRaw read = read raw := by
  rw [withRaw, hraw]

theorem checkOption_eq_ok_iff :
    c.checkOption raw = .ok () ↔ c.options = [] ∨ Text.trimmed raw ∈ c.options.map (·.value) := by
  rw [checkOption]
  split
  · next h => simpa using h
  · next h => simpa using h

/-- An option is read exactly if its check passes. -/
theorem readOption_eq_ok_iff (hraw : c.raw = some raw) :
    c.readOption (fun cs => some (String.ofList cs)) = .ok (Text.trimmed raw) ↔
      c.checkOption raw = .ok () := by
  refine ⟨fun h => ?_, readOption_of_checkOption hraw⟩
  rw [readOption, withRaw_of_raw hraw] at h
  split at h
  · cases h
  · next hcheck => exact hcheck

theorem readEventType_of_raw (hraw : c.raw = some raw) :
    c.readEventType catalog = match catalog.get? (Text.trimmed raw) with
      | none => .error (.unknownType raw)
      | some key => .ok key :=
  withRaw_of_raw hraw _

theorem readEventType_eq_ok_iff (hraw : c.raw = some raw) {key : EventKey} :
    c.readEventType catalog = .ok key ↔ catalog.get? (Text.trimmed raw) = some key := by
  rw [readEventType_of_raw hraw]
  cases catalog.get? (Text.trimmed raw) with
  | none => constructor <;> nofun
  | some found => rw [Except.ok.injEq, Option.some.injEq]

/-- With a placeholder in it a text passes whatever its kind is, and otherwise it is an option. -/
theorem check_of_checkOption (hraw : c.raw = some raw) (hkind : c.kind = .enumeration)
    (h : c.checkOption raw = .ok ()) : c.check = .ok () := by
  cases hplain : Template.hasPlaceholder raw with
  | true => simp only [check, hraw, hplain, if_true]
  | false => rw [check_of_literal hraw hplain, hkind, h]

/-- Names of event types are not looked up before the node runs. -/
theorem check_of_eventType (hkind : c.kind = .eventType) : c.check = .ok () := by
  rw [check, hkind]
  split
  · rfl
  · exact ite_self _

/-! ### Values that are taken -/

theorem raw_overlay_some : (c.overlay (some v)).raw = some v := rfl

/-- With a value for its text, a consumer passes its check and reads what was selected: the option,
or the event type that is registered under the name. -/
structure Takes (c : Consumer) (catalog : Catalog) (v : String) : Prop where
  checked : c.kind = .enumeration ∨ c.kind = .eventType → (c.overlay (some v)).check = .ok ()
  chosen : c.kind = .enumeration →
    (c.overlay (some v)).readOption (fun cs => some (String.ofList cs)) = .ok (Text.trimmed v)
  resolved : c.kind = .eventType →
    ∃ key, catalog.get? v = some key ∧ (c.overlay (some v)).readEventType catalog = .ok key

theorem takes_iff_of_enumeration (hkind : c.kind = .enumeration) :
    c.Takes catalog v ↔ c.options = [] ∨ Text.trimmed v ∈ c.options.map (·.value) := by
  have hoption : (c.overlay (some v)).checkOption v = .ok () ↔ _ := checkOption_eq_ok_iff
  refine Iff.trans ⟨fun h => ?_, fun h => ?_⟩ hoption
  · exact (readOption_eq_ok_iff raw_overlay_some).mp (h.chosen hkind)
  · refine ⟨fun _ => check_of_checkOption raw_overlay_some hkind h,
      fun _ => readOption_of_checkOption raw_overlay_some h, fun hkind' => ?_⟩
    rw [hkind] at hkind'
    cases hkind'

theorem takes_iff_of_eventType (hkind : c.kind = .eventType) :
    c.Takes catalog v ↔
      ∃ key, catalog.get? v = some key ∧ catalog.get? (Text.trimmed v) = some key := by
  have hread {key : EventKey} : (c.overlay (some v)).readEventType catalog = .ok key ↔ _ :=
    readEventType_eq_ok_iff raw_overlay_some
  constructor
  · intro h
    -- the name itself is registered, and what is left of it between its blanks must be too
    obtain ⟨key, hkey, hresolved⟩ := h.resolved hkind
    exact ⟨key, hkey, hread.mp hresolved⟩
  · rintro ⟨key, hkey, htrimmed⟩
    refine ⟨fun _ => check_of_eventType hkind, fun hkind' => ?_,
      fun _ => ⟨key, hkey, hread.mpr htrimmed⟩⟩
    rw [hkind] at hkind'
    cases hkind'

/-! ### Values that are offered -/

section Offering

variable (names : List String)

@[simp] theorem offering_kind : (c.offering names).kind = c.kind := by
  rw [offering]
  split <;> rfl

/-- The palette adds to the options of a field that selects an event type and to no others. -/
theorem offering_of_ne (hkind : c.kind ≠ .eventType) : c.offering names = c := by
  rw [offering, if_neg (by simp [hkind])]

theorem offering_of_eventType (hkind : c.kind = .eventType) (hown : c.options = []) :
    (c.offering names).options = names.map Choice.ofName := by
  rw [offering, if_pos (by simp [hkind, hown]), addOptions, hown, List.nil_append]

/-- The names are shown, and play no part when the field is read. -/
theorem takes_offering : (c.offering names).Takes catalog v ↔ c.Takes catalog v := by
  by_cases hkind : c.kind = .eventType
  · rw [takes_iff_of_eventType hkind, takes_iff_of_eventType ((offering_kind names).trans hkind)]
  · rw [offering_of_ne names hkind]

end Offering

/-- What is left of a value between its blanks is an option, or a name of the same event type as the
value itself. -/
structure Retrieves (c : Consumer) (catalog : Catalog) (v : String) : Prop where
  option : c.kind = .enumeration → Text.trimmed v ∈ c.options.map (·.value)
  name : c.kind = .eventType → catalog.get? (Text.trimmed v) = catalog.get? v

/-- An option without outer blanks is retrieved as itself, and so is a name. -/
theorem retrieves_of_trimmed (hv : c.kind = .enumeration → v ∈ c.options.map (·.value))
    (h : Text.trimmed v = v) : c.Retrieves catalog v where
  option hkind := by
    rw [h]
    exact hv hkind
  name _ := by rw [h]

/-- A field that selects an event type has no options of its own. -/
def Open (c : Consumer) : Prop := c.kind = .eventType → c.options = []

/-- **A field takes an offered value exactly if it retrieves it.** -/
theorem takes_iff (hopen : c.Open) (hv : v ∈ (c.offering catalog.keys).options.map (·.value)) :
    c.Takes catalog v ↔ c.Retrieves catalog v := by
  by_cases hevent : c.kind = .eventType
  · -- the value is a name in the catalog
    rw [offering_of_eventType _ hevent (hopen hevent), List.map_map] at hv
    obtain ⟨name, hmem, rfl⟩ := List.mem_map.mp hv
    obtain ⟨key, hkey⟩ := Option.isSome_iff_exists.mp ((catalog.mem_keys_iff name).mp hmem)
    rw [takes_iff_of_eventType hevent]
    constructor
    · rintro ⟨key', hkey', htrimmed⟩
      refine ⟨fun henum => ?_, fun _ => htrimmed.trans hkey'.symm⟩
      rw [hevent] at henum
      cases henum
    · exact fun h => ⟨key, hkey, (h.name hevent).trans hkey⟩
  · rw [offering_of_ne _ hevent] at hv
    by_cases henum : c.kind = .enumeration
    · -- there are options, since the value is one of them
      have hne : c.options ≠ [] := by
        intro hnil
        rw [hnil] at hv
        cases hv
      rw [takes_iff_of_enumeration henum, or_iff_right hne]
      exact ⟨fun h => ⟨fun _ => h, fun hkind => absurd hkind hevent⟩, fun h => h.option henum⟩
    · -- nothing is asked of fields of other kinds
      exact ⟨fun _ => ⟨fun hkind => absurd hkind henum, fun hkind => absurd hkind hevent⟩,
        fun _ => ⟨fun hkind => (hkind.elim henum hevent).elim, fun hkind => absurd hkind henum,
          fun hkind => absurd hkind hevent⟩⟩

end Consumer

namespace Engine

open Consumer

/-- A registered node type has a field with a consumer. -/
def Declares (e : Engine) (nodeType field : String) (c : Consumer) : Prop :=
  ∃ name t, e.registry.get? name = some t ∧ t.metadata.name = nodeType ∧
    ∃ f ∈ t.metadata.fields, f.name = field ∧ f.consumer = some c

/-- What the palette shows is declared, with the names in the catalog added. -/
theorem declares_of_mem_palette {e : Engine} {m : NodeMetadata} (hm : m ∈ e.palette) {f : Field}
    (hf : f ∈ m.fields) {shown : Consumer} (hshown : f.consumer = some shown) :
    ∃ c, e.Declares m.name f.name c ∧ shown = c.offering e.catalog.keys := by
  obtain ⟨registered, hregistered, rfl⟩ := List.mem_map.mp hm
  obtain ⟨t, ht, rfl⟩ := List.mem_map.mp hregistered
  obtain ⟨⟨name, t⟩, hentry, rfl⟩ := List.mem_map.mp ht
  obtain ⟨f', hf', rfl⟩ := List.mem_map.mp hf
  obtain ⟨c, hc, rfl⟩ := Option.map_eq_some_iff.mp hshown
  exact ⟨c, ⟨name, t, StringMap.mem_entries_iff.mp hentry, rfl, f', hf', rfl, hc⟩, rfl⟩

/-- **Which values on the palette are taken.** Whatever node types and event types are registered,
a field on the palette is that of a registered type. An enumeration, and a field that selects an
event type and has no options of its own, takes a value that it is offered exactly if it retrieves
it, which it does if the value neither begins nor ends with a blank. That holds of the field as it
is shown and as it is on the nodes that are loaded. -/
theorem offers_taken {e : Engine} {m : NodeMetadata} (hm : m ∈ e.palette) {f : Field}
    (hf : f ∈ m.fields) {shown : Consumer} (hshown : f.consumer = some shown) :
    ∃ c, e.Declares m.name f.name c ∧ shown = c.offering e.catalog.keys ∧
      (c.Open → ∀ o ∈ shown.options, ∀ d, d = c ∨ d = shown →
        (d.Takes e.catalog o.value ↔ c.Retrieves e.catalog o.value) ∧
        (Text.trimmed o.value = o.value → d.Takes e.catalog o.value)) := by
  obtain ⟨c, hdeclared, rfl⟩ := declares_of_mem_palette hm hf hshown
  refine ⟨c, hdeclared, rfl, fun hopen o ho d hd => ?_⟩
  have hv : o.value ∈ (c.offering e.catalog.keys).options.map (·.value) := List.mem_map_of_mem ho
  -- names that are added for show play no part in what a field takes
  have htakes : d.Takes e.catalog o.value ↔ c.Retrieves e.catalog o.value := by
    rcases hd with rfl | rfl
    · exact takes_iff hopen hv
    · exact (takes_offering _).trans (takes_iff hopen hv)
  refine ⟨htakes, fun htrimmed => htakes.mpr (retrieves_of_trimmed (fun hkind => ?_) htrimmed)⟩
  -- an enumeration is shown with its own options only
  rwa [offering_of_ne _ (by rw [hkind]; nofun)] at hv

/-- An engine with one node type, which has a field with one option and a field that selects an
event type. -/
def ofChoices (option : String) (catalog : Catalog) : Engine where
  config := {}
  registry := (∅ : StringMap _).insert "Await" {
    metadata := {
      name := "Await"
      group := .trigger
      color := .amber
      fields := [
        { name := "pace", consumer := some { kind := .enumeration, options := [.ofName option] } },
        { name := "event", consumer := some { kind := .eventType } }] }
    behaviour := none }
  catalog := catalog
  store := .inMemory
  scheduler := {}
  pool := .ofSize 1
  dice := fun _ low _ => low

/-- An option, and a name of the sample events. -/
theorem offers_taken_sample : ∃ m ∈ (ofChoices "slow" .sample).palette,
    (∃ f ∈ m.fields, ∃ shown, f.consumer = some shown ∧ shown.kind = .enumeration ∧
      shown.Takes .sample "slow") ∧
    ∃ f ∈ m.fields, ∃ shown, f.consumer = some shown ∧ shown.kind = .eventType ∧
      shown.Takes .sample "PlayerJoin" := by
  let e : Engine := ofChoices "slow" .sample
  have hdeclared {field : String} {c : Consumer} (h : e.Declares "Await" field c) : c.Open := by
    obtain ⟨name, t, ht, -, f, hf, -, hc⟩ := h
    rw [show e.registry = (∅ : StringMap _).insert "Await" _ from rfl, StringMap.get?_insert] at ht
    split at ht
    · cases ht
      rcases List.mem_cons.mp hf with rfl | hf
      · cases hc
        nofun
      · cases List.mem_singleton.mp hf
        cases hc
        exact fun _ => rfl
    · cases ht
  refine ⟨_, .head _, ⟨_, .head _, _, rfl, rfl, ?_⟩, _, .tail _ (.head _), _, rfl, rfl, ?_⟩
  · obtain ⟨c, hc, -, htaken⟩ := offers_taken (e := e) (.head _) (.head _) rfl
    exact (htaken (hdeclared hc) (.ofName "slow") (.head _) _ (.inr rfl)).2 (by decide)
  · obtain ⟨c, hc, -, htaken⟩ := offers_taken (e := e) (.head _) (.tail _ (.head _)) rfl
    exact (htaken (hdeclared hc) (.ofName "PlayerJoin") (by decide) _ (.inr rfl)).2 (by decide)

/-- An option and a name that begin with a blank are shown and refused. -/
theorem offer_refused : ∃ (e : Engine), ∃ m ∈ e.palette,
    (∃ f ∈ m.fields, ∃ shown, f.consumer = some shown ∧ shown.kind = .enumeration ∧
      ∃ o ∈ shown.options, (shown.overlay (some o.value)).check = .error (.notAnOption " slow")) ∧
    ∃ f ∈ m.fields, ∃ shown, f.consumer = some shown ∧ shown.kind = .eventType ∧
      ∃ o ∈ shown.options, e.catalog.get? o.value = some (.ofType "PlayerJoin") ∧
        (shown.overlay (some o.value)).readEventType e.catalog = .error (.unknownType " Join") := by
  let catalog : Catalog := (∅ : StringMap _).insert " Join" (.ofType "PlayerJoin")
  have hnone : catalog.get? (Text.trimmed " Join") = none := by decide
  have hunknown (c : Consumer) :
      (c.overlay (some " Join")).readEventType catalog = .error (.unknownType " Join") := by
    rw [readEventType_of_raw raw_overlay_some, hnone]
  refine ⟨ofChoices " slow" catalog, _, .head _, ⟨_, .head _, _, rfl, rfl, _, .head _, ?_⟩,
    _, .tail _ (.head _), _, rfl, rfl, _, .head _, by decide, hunknown _⟩
  rw [check_of_literal raw_overlay_some (by cbv)]
  exact if_neg (by decide)

end Engine

end Flowgraph
