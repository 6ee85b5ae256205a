import WebAudit.Command.Run
import WebAudit.Proofs.LayeredSettings
import WebAudit.Proofs.TomlDocuments
import WebAudit.Settings.Rendering

/-!
Settings that are shown read back. The document of some settings is read as a
table for each part, in which every leaf has what the settings hold. Above any
layers of files it decides about all leaves; the environment above it is the one
that the settings were read with, and changes nothing.
-/

namespace WebAudit

namespace Settings

section Entries

def policyTable (p : Policy) : List (String × Toml.Value) :=
  policyEntries p ++
    (if p.widen.isEmpty then []
    else [("widen", .array (p.widen.map fun rule => .table rule.entries))])

def tables (s : Settings) : List (String × Toml.Value) :=
  [("scan", .table (scanEntries s.scan)), ("secrets", .table (secretEntries s.secrets)),
    ("dependencies", .table (lookupEntries s.dependencies)),
    ("policy", .table (policyTable s.policy)), ("detectors", .table (detectorEntries s.detectors))]

end Entries

section Documents

open Toml

theorem natural_isLegible {n : Nat} (hn : n < Nat.pow 2 63) : (naturalValue n).IsLegible :=
  Value.natural_isLegible hn

/-- A block with a path of bare names is legible if its keys are bare and its
values are legible. -/
theorem isLegible_of_entries {path : KeyPath} {isElement : Bool}
    {entries : List (String × Value)} (hpath : path ≠ [] ∧ path.length < depthLimit ∧
      ∀ name ∈ path, IsBareName name)
    (hentries : ∀ p ∈ entries, IsBareName p.1 ∧ p.2.IsLegible) :
    (⟨path, isElement, entries⟩ : Block).IsLegible :=
  ⟨hpath.1, hpath.2.1, hpath.2.2, fun p hp => (hentries p hp).1, fun p hp => (hentries p hp).2⟩

theorem policyEntries_isLegible (p : Policy) :
    ∀ e ∈ policyEntries p, IsBareName e.1 ∧ e.2.IsLegible := by
  have hexempt : (Value.array (p.exitExempt.map fun c => .string c.name)).IsLegible := by
    have hnames := Value.texts_isLegible (p.exitExempt.map Category.name)
    rwa [List.map_map] at hnames
  have hempty : ∀ e ∈ (if p.widen.isEmpty then [("widen", Value.array [])] else []),
      IsBareName e.1 ∧ e.2.IsLegible := by
    split
    · simp only [List.forall_mem_singleton]
      exact ⟨by decide, Value.texts_isLegible []⟩
    · simp
  simp only [policyEntries, List.forall_mem_append, List.forall_mem_cons, List.not_mem_nil,
    false_imp_iff, implies_true, and_true]
  exact ⟨⟨⟨by decide, Value.string_isLegible _⟩, hempty⟩, ⟨by decide, Value.string_isLegible _⟩,
    by decide, hexempt⟩

theorem rule_isLegible (rule : WidenRule) :
    ∀ e ∈ rule.entries, IsBareName e.1 ∧ e.2.IsLegible := by
  have hkind : ∀ e ∈ rule.kind.toList.map fun kind => ("kind", Value.string kind),
      IsBareName e.1 ∧ e.2.IsLegible := by
    rw [List.forall_mem_map]
    exact fun kind _ => ⟨(by decide : IsBareName "kind"), Value.string_isLegible kind⟩
  simp only [WidenRule.entries, List.forall_mem_append, List.forall_mem_cons, List.not_mem_nil,
    false_imp_iff, implies_true, and_true]
  exact ⟨⟨⟨by decide, Value.string_isLegible _⟩, hkind⟩, by decide, Value.string_isLegible _⟩

theorem detectorEntries_isLegible (d : DetectorSwitches) :
    ∀ e ∈ detectorEntries d, IsBareName e.1 ∧ e.2.IsLegible := by
  simp only [detectorEntries, List.forall_mem_cons, List.not_mem_nil, false_imp_iff, implies_true,
    and_true, Value.boolean_isLegible]
  decide

theorem scanEntries_isLegible {s : ScanSettings} (hparallelism : s.parallelism < Nat.pow 2 63)
    (hbytes : s.maxFileBytes < Nat.pow 2 63) :
    ∀ e ∈ scanEntries s, IsBareName e.1 ∧ e.2.IsLegible := by
  simp only [scanEntries, List.forall_mem_cons, List.not_mem_nil, false_imp_iff, implies_true,
    and_true]
  exact ⟨⟨by decide, natural_isLegible hparallelism⟩, ⟨by decide, Value.string_isLegible _⟩,
    ⟨by decide, Value.texts_isLegible _⟩, ⟨by decide, natural_isLegible hbytes⟩,
    ⟨by decide, Value.boolean_isLegible _⟩⟩

theorem secretEntries_isLegible {s : SecretSettings}
    (hthreshold : (Value.float s.entropyThreshold).IsLegible)
    (hlength : s.entropyMinLength < Nat.pow 2 63)
    (hdistinct : s.awsSecretMinDistinct < Nat.pow 2 63) :
    ∀ e ∈ secretEntries s, IsBareName e.1 ∧ e.2.IsLegible := by
  simp only [secretEntries, List.forall_mem_cons, List.not_mem_nil, false_imp_iff, implies_true,
    and_true]
  exact ⟨⟨by decide, Value.boolean_isLegible _⟩, ⟨by decide, hthreshold⟩,
    ⟨by decide, natural_isLegible hlength⟩, ⟨by decide, natural_isLegible hdistinct⟩⟩

theorem lookupEntries_isLegible {s : LookupSettings} (hbatch : s.batchSize < Nat.pow 2 63)
    (htimeout : s.timeoutSecs < Nat.pow 2 63) (hdetails : s.detailsConcurrency < Nat.pow 2 63) :
    ∀ e ∈ lookupEntries s, IsBareName e.1 ∧ e.2.IsLegible := by
  simp only [lookupEntries, List.forall_mem_cons, List.not_mem_nil, false_imp_iff, implies_true,
    and_true]
  exact ⟨⟨by decide, Value.boolean_isLegible _⟩, ⟨by decide, Value.string_isLegible _⟩,
    ⟨by decide, natural_isLegible hbatch⟩, ⟨by decide, natural_isLegible htimeout⟩,
    ⟨by decide, natural_isLegible hdetails⟩⟩

/-- Settings have a document exactly when it can hold their numbers. -/
theorem document?_eq_some_iff (s : Settings) (text : String) :
    s.document? = some text ↔
      (∀ n ∈ s.naturals, n < Nat.pow 2 63) ∧ Block.document s.blocks = text := by
  unfold document?
  split
  · rename_i hall
    simp only [List.all_eq_true, decide_eq_true_eq] at hall
    rw [Option.some.injEq, and_iff_right hall]
  · rename_i hall
    simp only [List.all_eq_true, decide_eq_true_eq] at hall
    simp [hall]

/-- All blocks of settings are legible if the document can hold the numbers and
the text of the threshold reads back. -/
theorem blocks_isLegible {s : Settings} (hnaturals : ∀ n ∈ s.naturals, n < Nat.pow 2 63)
    (hfinite : s.secrets.entropyThreshold.isFinite = true)
    (hfloat : float? (floatText s.secrets.entropyThreshold).toList =
      some s.secrets.entropyThreshold) : ∀ b ∈ s.blocks, b.IsLegible := by
  have hthreshold : (Value.float s.secrets.entropyThreshold).IsLegible := by
    cases hcase : s.secrets.entropyThreshold with
    | finite negative m e =>
        rw [hcase] at hfloat
        exact Value.float_isLegible negative m e hfloat
    | infinite negative =>
        rw [hcase] at hfinite
        cases hfinite
    | nan =>
        rw [hcase] at hfinite
        cases hfinite
  simp only [naturals, List.forall_mem_cons, List.not_mem_nil, false_imp_iff, implies_true,
    and_true] at hnaturals
  obtain ⟨hparallelism, hbytes, hlength, hdistinct, hbatch, htimeout, hdetails⟩ := hnaturals
  rw [blocks, policyBlocks]
  simp only [List.forall_mem_append, List.forall_mem_cons, List.forall_mem_map, List.not_mem_nil,
    false_imp_iff, implies_true, and_true]
  exact ⟨⟨⟨isLegible_of_entries (by decide) (scanEntries_isLegible hparallelism hbytes),
      isLegible_of_entries (by decide) (secretEntries_isLegible hthreshold hlength hdistinct),
      isLegible_of_entries (by decide) (lookupEntries_isLegible hbatch htimeout hdetails)⟩,
    isLegible_of_entries (by decide) (policyEntries_isLegible s.policy),
    fun rule _ => isLegible_of_entries (by decide) (rule_isLegible rule)⟩,
    isLegible_of_entries (by decide) (detectorEntries_isLegible s.detectors)⟩

section Tables

/-- The nodes of the parts before the policy. -/
def nodesBefore (s : Settings) : List (String × Node) :=
  [("scan", .table false false (valueNodes (scanEntries s.scan))),
    ("secrets", .table false false (valueNodes (secretEntries s.secrets))),
    ("dependencies", .table false false (valueNodes (lookupEntries s.dependencies)))]

/-- The nodes of the policy, with an array of tables if there are rules. -/
def policyNodes (p : Policy) : List (String × Node) :=
  valueNodes (policyEntries p) ++
    (if p.widen.isEmpty then []
    else [("widen", .tables (p.widen.map fun rule => valueNodes rule.entries))])

theorem foldlM_before (s : Settings) :
    ([⟨["scan"], false, scanEntries s.scan⟩, ⟨["secrets"], false, secretEntries s.secrets⟩,
        ⟨["dependencies"], false, lookupEntries s.dependencies⟩].flatMap
          Block.statements).foldlM Builder.step? {} =
      some ⟨made s.nodesBefore, ["dependencies"]⟩ := by
  have hscan := @foldlM_table [] "scan" rfl (scanEntries s.scan) (by simp [scanEntries]) []
  have hsecrets := @foldlM_table [("scan", .table false false (valueNodes (scanEntries s.scan)))]
    "secrets" rfl (secretEntries s.secrets) (by simp [secretEntries]) ["scan"]
  have hlookups := @foldlM_table
    [("scan", .table false false (valueNodes (scanEntries s.scan))),
      ("secrets", .table false false (valueNodes (secretEntries s.secrets)))]
    "dependencies" rfl (lookupEntries s.dependencies) (by simp [lookupEntries]) ["secrets"]
  have hstart : ({} : Builder) = ⟨made [], []⟩ := rfl
  rw [List.flatMap_cons, List.flatMap_cons, List.flatMap_singleton, hstart,
    foldlM_append_of_some hscan, List.nil_append, foldlM_append_of_some hsecrets]
  exact hlookups

theorem policyEntries_nodup (p : Policy) : ((policyEntries p).map Prod.fst).Nodup := by
  unfold policyEntries
  split <;> simp

theorem rule_nodup (rule : WidenRule) : (rule.entries.map Prod.fst).Nodup := by
  unfold WidenRule.entries
  cases rule.kind <;> simp

theorem foldlM_policy (s : Settings) (current : KeyPath) :
    ∃ current', ((⟨["policy"], false, policyEntries s.policy⟩ ::
        s.policy.widen.map fun rule => ⟨["policy", "widen"], true, rule.entries⟩ :
          List Block).flatMap Block.statements).foldlM Builder.step?
            ⟨made s.nodesBefore, current⟩ =
      some ⟨made (s.nodesBefore ++ [("policy", .table false false (policyNodes s.policy))]),
        current'⟩ := by
  have hpart : s.nodesBefore.lookup "policy" = none := rfl
  have htable := foldlM_table hpart (policyEntries_nodup s.policy) current
  rw [List.flatMap_cons, foldlM_append_of_some htable]
  unfold policyNodes
  split
  · rename_i hnone
    have hempty : s.policy.widen = [] := by simpa using hnone
    exact ⟨["policy"], by simp [hempty]⟩
  · rename_i hrules
    have hname : (valueNodes (policyEntries s.policy)).lookup "widen" = none := by
      simp [valueNodes, policyEntries, hrules, lookup_cons_ite]
    have hrows : ∀ row ∈ s.policy.widen.map WidenRule.entries, (row.map Prod.fst).Nodup := by
      rw [List.forall_mem_map]
      exact fun rule _ => rule_nodup rule
    obtain ⟨current', helements⟩ := foldlM_elements_of_ne hpart hname
      (by simpa using hrules : s.policy.widen.map WidenRule.entries ≠ []) hrows ["policy"]
    refine ⟨current', ?_⟩
    simpa [List.flatMap_map, List.map_map, Function.comp_def] using helements

theorem elementValues_rules (rules : List WidenRule) :
    Node.elementValues (rules.map fun rule => valueNodes rule.entries) =
      rules.map fun rule => .table rule.entries := by
  induction rules with
  | nil => rfl
  | cons rule rules ih =>
      rw [List.map_cons, Node.elementValues, entryValues_valueNodes, ih]
      rfl

theorem entryValues_policyNodes (p : Policy) :
    Node.entryValues (policyNodes p) = policyTable p := by
  unfold policyNodes policyTable
  split
  · rw [List.append_nil, List.append_nil, entryValues_valueNodes]
  · rw [entryValues_append, entryValues_valueNodes]
    simp only [Node.entryValues, Node.toValue, elementValues_rules]

end Tables

/-- The document of settings is read as their tables. -/
theorem parse?_document {s : Settings} {text : String} (htext : s.document? = some text)
    (hfinite : s.secrets.entropyThreshold.isFinite = true)
    (hfloat : float? (floatText s.secrets.entropyThreshold).toList =
      some s.secrets.entropyThreshold) : parse? text = some s.tables := by
  obtain ⟨hnaturals, rfl⟩ := (document?_eq_some_iff s text).mp htext
  have hblocks := blocks_isLegible hnaturals hfinite hfloat
  obtain ⟨current, hpolicy⟩ := foldlM_policy s ["dependencies"]
  have hdetectors := @foldlM_table
    (s.nodesBefore ++ [("policy", .table false false (policyNodes s.policy))]) "detectors" rfl
    (detectorEntries s.detectors) (by simp [detectorEntries]) current
  have hvalues : (made (s.nodesBefore ++ [("policy", .table false false (policyNodes s.policy))] ++
      [("detectors", .table false false (valueNodes (detectorEntries s.detectors)))])).values =
        s.tables := by
    simp only [made, Table.values, nodesBefore, List.cons_append, List.nil_append,
      Node.entryValues, Node.toValue, entryValues_valueNodes, entryValues_policyNodes]
    rfl
  rw [parse?, Block.statements?_document hblocks, Option.bind_some, ofStatements?, blocks,
    policyBlocks, List.flatMap_append, List.flatMap_append, List.append_assoc,
    foldlM_append_of_some (foldlM_before s), foldlM_append_of_some hpolicy,
    List.flatMap_singleton, hdetectors, Option.map_some, hvalues]

end Documents

end Settings

namespace Reading

section Values

theorem natural_natCast (typeName : String) (n : Nat) :
    natural typeName (.signed n) = .ok n := by
  simp [natural]

theorem severity_name (s : Severity) : severity (.text s.name) = .ok s := by
  cases s <;> rfl

theorem category_name (c : Category) : category (.text c.name) = .ok c := by
  cases c <;> rfl

theorem itemsFrom_ofItems {β : Type} {read : Setting → Reading β} {write : β → Toml.Value}
    (hread : ∀ x, read (Setting.ofToml (write x)) = .ok x) (i : Nat) (xs : List β) :
    itemsFrom read i (Setting.ofItems (xs.map write)) = .ok xs := by
  induction xs generalizing i with
  | nil => rfl
  | cons x xs ih =>
      have hfirst : below (.index i) (read (Setting.ofToml (write x))) = .ok x :=
        below_eq_ok_iff.mpr (hread x)
      rw [List.map_cons, Setting.ofItems, itemsFrom, hfirst]
      simp only [bind, Except.bind, ih (i + 1)]
      rfl

/-- A list reads back if its items do. -/
theorem list_ofToml {β : Type} {read : Setting → Reading β} {write : β → Toml.Value}
    (hread : ∀ x, read (Setting.ofToml (write x)) = .ok x) (xs : List β) :
    list read (Setting.ofToml (.array (xs.map write))) = .ok xs := by
  rw [Setting.ofToml, list]
  exact itemsFrom_ofItems hread 0 xs

/-- A rule reads back, with its kind if it has one. -/
theorem widenRule_entries (rule : WidenRule) :
    widenRule (Setting.ofToml (.table rule.entries)) = .ok rule := by
  have hdraft : draft (.map (Setting.ofEntries rule.entries)) =
      .ok ⟨some rule.category, rule.kind, some rule.floor⟩ := by
    rw [draft, record_map_eq_ok_iff draftSlots_lawful]
    simp only [Toml.lookup_ofEntries, draftSlots, List.forall_mem_cons, List.not_mem_nil,
      false_imp_iff, implies_true, and_true]
    obtain ⟨category, kind, floor⟩ := rule
    have hcategory := category_name category
    have hfloor := severity_name floor
    cases kind with
    | none =>
        simp [WidenRule.entries, lookup_cons_ite, Slot.Given, Setting.ofToml, hcategory, hfloor,
          Except.map]
    | some kind =>
        simp [WidenRule.entries, lookup_cons_ite, Slot.Given, Setting.ofToml, hcategory, hfloor,
          Except.map, text]
  rw [widenRule, Setting.ofToml, hdraft]
  rfl

end Values

section Renders

/-- Whether entries give at every slot what a record holds there. -/
def Renders {α : Type} (slots : List (Slot α)) (entries : List (String × Setting)) (r : α) :
    Prop :=
  ∀ slot ∈ slots, ∃ v, entries.lookup slot.name = some v ∧ slot.read v = .ok (slot.get r)

open Settings

theorem scan_renders (s : ScanSettings) :
    Renders scanSlots (Setting.ofEntries (scanEntries s)) s := by
  simp only [Renders, scanSlots, List.forall_mem_cons, List.not_mem_nil, false_imp_iff,
    implies_true, and_true]
  exact ⟨⟨_, rfl, natural_natCast _ _⟩, ⟨_, rfl, rfl⟩, ⟨_, rfl, list_ofToml (fun _ => rfl) _⟩,
    ⟨_, rfl, natural_natCast _ _⟩, ⟨_, rfl, rfl⟩⟩

theorem secrets_renders (s : SecretSettings) :
    Renders secretSlots (Setting.ofEntries (secretEntries s)) s := by
  simp only [Renders, secretSlots, List.forall_mem_cons, List.not_mem_nil, false_imp_iff,
    implies_true, and_true]
  exact ⟨⟨_, rfl, rfl⟩, ⟨_, rfl, rfl⟩, ⟨_, rfl, natural_natCast _ _⟩,
    ⟨_, rfl, natural_natCast _ _⟩⟩

theorem dependencies_renders (s : LookupSettings) :
    Renders lookupSlots (Setting.ofEntries (lookupEntries s)) s := by
  simp only [Renders, lookupSlots, List.forall_mem_cons, List.not_mem_nil, false_imp_iff,
    implies_true, and_true]
  exact ⟨⟨_, rfl, rfl⟩, ⟨_, rfl, rfl⟩, ⟨_, rfl, natural_natCast _ _⟩,
    ⟨_, rfl, natural_natCast _ _⟩, ⟨_, rfl, natural_natCast _ _⟩⟩

theorem policy_renders (p : Policy) :
    Renders policySlots (Setting.ofEntries (policyTable p)) p := by
  have hwiden : ∃ v, (Setting.ofEntries (policyTable p)).lookup "widen" = some v ∧
      list widenRule v = .ok p.widen := by
    refine ⟨Setting.ofToml (.array (p.widen.map fun rule => .table rule.entries)), ?_,
      list_ofToml widenRule_entries p.widen⟩
    rw [Toml.lookup_ofEntries]
    cases hcase : p.widen with
    | nil => simp [policyTable, policyEntries, hcase, lookup_cons_ite]
    | cons rule rules => simp [policyTable, policyEntries, hcase, lookup_cons_ite]
  have hothers : ∀ name v, (policyEntries p).lookup name = some v →
      (Setting.ofEntries (policyTable p)).lookup name = some (Setting.ofToml v) := by
    intro name v hv
    rw [Toml.lookup_ofEntries, policyTable, lookup_append, hv]
    rfl
  simp only [Renders, policySlots, List.forall_mem_cons, List.not_mem_nil, false_imp_iff,
    implies_true, and_true]
  have hthreshold : (policyEntries p).lookup "threshold" = some (.string p.threshold.name) := rfl
  have hexit : (policyEntries p).lookup "exit_threshold" =
      some (.string p.exitThreshold.name) := by
    unfold policyEntries
    split <;> rfl
  have hexempt : (policyEntries p).lookup "exit_exempt_categories" =
      some (.array (p.exitExempt.map fun c => .string c.name)) := by
    unfold policyEntries
    split <;> rfl
  exact ⟨⟨_, hothers _ _ hthreshold, severity_name _⟩, hwiden,
    ⟨_, hothers _ _ hexit, severity_name _⟩,
    ⟨_, hothers _ _ hexempt, list_ofToml category_name _⟩⟩

theorem detectors_renders (d : DetectorSwitches) :
    Renders detectorSlots (Setting.ofEntries (detectorEntries d)) d := by
  simp only [Renders, detectorSlots, List.forall_mem_cons, List.not_mem_nil, false_imp_iff,
    implies_true, and_true]
  exact ⟨⟨_, rfl, rfl⟩, ⟨_, rfl, rfl⟩, ⟨_, rfl, rfl⟩, ⟨_, rfl, rfl⟩, ⟨_, rfl, rfl⟩,
    ⟨_, rfl, rfl⟩, ⟨_, rfl, rfl⟩, ⟨_, rfl, rfl⟩⟩

/-- Entries that give all slots decide about them above any others. -/
theorem exists_overlaid_of_renders {α : Type} {slots : List (Slot α)}
    (hreads : ∀ slot ∈ slots, ReadsLeaf slot.read) {entries : List (String × Setting)} {r : α}
    (hrenders : Renders slots entries r) (hnodup : (entries.map Prod.fst).Nodup)
    (lower : Option Setting) :
    ∃ joined, Setting.overlaid lower (some (.map entries)) = some (.map joined) ∧
      Renders slots joined r := by
  obtain ⟨joined, old, hjoined, hlookup⟩ := Setting.exists_overlaid_map lower hnodup
  refine ⟨joined, hjoined, fun slot hslot => ?_⟩
  obtain ⟨v, hv, hread⟩ := hrenders slot hslot
  refine ⟨v, ?_, hread⟩
  rw [hlookup, hv, Setting.overlaid_of_not_map _ ((hreads slot hslot).isMap_of_ok hread)]

/-- What a layer gives at a slot that reads is no map. -/
theorem isMap_of_given_overlaid {α : Type} {slot : Slot α} (hreads : ReadsLeaf slot.read)
    {old : Option Setting} {w : Setting} {base r : α}
    (hgiven : slot.Given (Setting.overlaid old (some w)) base r) : w.isMap = false := by
  cases old with
  | none => exact hreads.isMap_of_ok hgiven
  | some o =>
      have hmap : (Setting.overlay o w).isMap = false := hreads.isMap_of_ok hgiven
      rwa [Setting.isMap_overlay] at hmap

/-- What a part holds under a layer it holds again above its own rendering: where
the layer gives something it counted before, and elsewhere the rendering counts. -/
theorem given_part_of_renders {α : Type} {slots : List (Slot α)} (hlawful : Lawful slots)
    (hreads : ∀ slot ∈ slots, ReadsLeaf slot.read) (typeName part : String)
    (view : Settings → α) (store : α → Settings → Settings)
    {joined : List (String × Setting)} {c : Settings} (hrenders : Renders slots joined (view c))
    {lower upper : Option Setting}
    (hupper : ∀ m, upper = some (.map m) → (m.map Prod.fst).Nodup)
    (hgiven : Slot.Given ⟨part, α, record typeName slots (view {}), store, view⟩
      (Setting.overlaid lower upper) {} c) :
    Slot.Given ⟨part, α, record typeName slots (view {}), store, view⟩
      (Setting.overlaid (some (.map joined)) upper) {} c := by
  have hrendered : ∀ slot ∈ slots, slot.Given (joined.lookup slot.name) (view {}) (view c) := by
    intro slot hslot
    obtain ⟨v, hv, hread⟩ := hrenders slot hslot
    rw [hv]
    exact hread
  cases upper with
  | none =>
      rw [Setting.overlaid_none_right]
      exact (record_map_eq_ok_iff hlawful typeName (view {}) joined (view c)).mpr hrendered
  | some v =>
      cases hmap : v.isMap with
      | false =>
          rw [Setting.overlaid_of_not_map _ hmap] at hgiven ⊢
          exact hgiven
      | true =>
          obtain ⟨m, rfl⟩ := (Setting.isMap_iff v).mp hmap
          have hnodup := hupper m rfl
          obtain ⟨before, old, hbefore, hold⟩ := Setting.exists_overlaid_map lower hnodup
          have hagain : Setting.overlaid (some (.map joined)) (some (.map m)) =
              some (.map (Setting.overlayEntries joined m)) := by
            rw [Setting.overlaid, Setting.overlay]
          rw [hbefore] at hgiven
          rw [hagain]
          have hslots := (record_map_eq_ok_iff hlawful typeName (view {}) before (view c)).mp hgiven
          -- A slot that the layer gives was read from what the layer gives there,
          -- since that is no map; the other slots are those of the rendering.
          refine (record_map_eq_ok_iff hlawful typeName (view {}) _ (view c)).mpr fun slot hslot => ?_
          have hslot' := hslots slot hslot
          rw [hold] at hslot'
          rw [Setting.lookup_overlayEntries joined hnodup]
          cases hlookup : m.lookup slot.name with
          | none =>
              rw [Setting.overlaid_none_right]
              exact hrendered slot hslot
          | some w =>
              rw [hlookup] at hslot'
              have hleaf := isMap_of_given_overlaid (hreads slot hslot) hslot'
              rw [Setting.overlaid_of_not_map _ hleaf] at hslot' ⊢
              exact hslot'

end Renders

section Parts

open Settings

structure RendersParts (entries : List (String × Setting)) (c : Settings) : Prop where
  scan : ∃ m, entries.lookup "scan" = some (.map m) ∧ Renders scanSlots m c.scan
  secrets : ∃ m, entries.lookup "secrets" = some (.map m) ∧ Renders secretSlots m c.secrets
  dependencies :
    ∃ m, entries.lookup "dependencies" = some (.map m) ∧ Renders lookupSlots m c.dependencies
  policy : ∃ m, entries.lookup "policy" = some (.map m) ∧ Renders policySlots m c.policy
  detectors :
    ∃ m, entries.lookup "detectors" = some (.map m) ∧ Renders detectorSlots m c.detectors

/-- The tables of settings have all parts. -/
theorem tables_rendersParts (c : Settings) : RendersParts (Setting.ofEntries c.tables) c where
  scan := ⟨_, rfl, scan_renders c.scan⟩
  secrets := ⟨_, rfl, secrets_renders c.secrets⟩
  dependencies := ⟨_, rfl, dependencies_renders c.dependencies⟩
  policy := ⟨_, rfl, policy_renders c.policy⟩
  detectors := ⟨_, rfl, detectors_renders c.detectors⟩

/-- Above any layers, tables that have all parts have them still. -/
theorem RendersParts.overlayEntries {entries : List (String × Setting)} {c : Settings}
    (hrenders : RendersParts entries c) (hdistinct : Setting.Distinct entries)
    (lower : List (String × Setting)) : RendersParts (Setting.overlayEntries lower entries) c := by
  have hpart : ∀ {α : Type} {slots : List (Slot α)} {part : String} {r : α},
      (∀ slot ∈ slots, ReadsLeaf slot.read) →
      (∃ m, entries.lookup part = some (.map m) ∧ Renders slots m r) →
      ∃ m, (Setting.overlayEntries lower entries).lookup part = some (.map m) ∧
        Renders slots m r := by
    rintro α slots part r hreads ⟨m, hm, hrenders⟩
    rw [Setting.lookup_overlayEntries lower hdistinct.names, hm]
    exact exists_overlaid_of_renders hreads hrenders (hdistinct.inner part m hm) _
  exact ⟨hpart scanSlots_readsLeaf hrenders.scan, hpart secretSlots_readsLeaf hrenders.secrets,
    hpart lookupSlots_readsLeaf hrenders.dependencies, hpart policySlots_readsLeaf hrenders.policy,
    hpart detectorSlots_readsLeaf hrenders.detectors⟩

/-- Settings that were read under a layer are read again if all that was below it
is replaced by what the settings hold. -/
theorem settings_of_rendersParts {lower rendered upper : List (String × Setting)} {c : Settings}
    (hread : settings (.map (Setting.overlayEntries lower upper)) = .ok c)
    (hrenders : RendersParts rendered c) (hdistinct : Setting.Distinct upper) :
    settings (.map (Setting.overlayEntries rendered upper)) = .ok c := by
  rw [settings, record_map_eq_ok_iff partSlots_lawful] at hread ⊢
  simp only [partSlots, List.forall_mem_cons, List.not_mem_nil, false_imp_iff, implies_true,
    and_true, Setting.lookup_overlayEntries _ hdistinct.names] at hread ⊢
  obtain ⟨hscan, hsecrets, hlookups, hpolicy, hdetectors⟩ := hread
  obtain ⟨scan, hscan', hscans⟩ := hrenders.scan
  obtain ⟨secrets, hsecrets', hsecretss⟩ := hrenders.secrets
  obtain ⟨lookups, hlookups', hlookupss⟩ := hrenders.dependencies
  obtain ⟨policy, hpolicy', hpolicys⟩ := hrenders.policy
  obtain ⟨detectors, hdetectors', hdetectorss⟩ := hrenders.detectors
  rw [hscan', hsecrets', hlookups', hpolicy', hdetectors']
  exact ⟨given_part_of_renders scanSlots_lawful scanSlots_readsLeaf _ "scan" (·.scan) _ hscans
      (hdistinct.inner "scan") hscan,
    given_part_of_renders secretSlots_lawful secretSlots_readsLeaf _ "secrets" (·.secrets) _
      hsecretss (hdistinct.inner "secrets") hsecrets,
    given_part_of_renders lookupSlots_lawful lookupSlots_readsLeaf _ "dependencies"
      (·.dependencies) _ hlookupss (hdistinct.inner "dependencies") hlookups,
    given_part_of_renders policySlots_lawful policySlots_readsLeaf _ "policy" (·.policy) _
      hpolicys (hdistinct.inner "policy") hpolicy,
    given_part_of_renders detectorSlots_lawful detectorSlots_readsLeaf _ "detectors"
      (·.detectors) _ hdetectorss (hdistinct.inner "detectors") hdetectors⟩

end Parts

end Reading

namespace Settings

/-- Settings are those of their own document above any layers and below the
layer that they were read under. -/
theorem ofLayers_of_tables {before lower : List Layer} {shown upper : Layer} {c : Settings}
    (hsettings : ofLayers (before ++ [upper]) = .ok c)
    (hshown : shown.entries = Setting.ofEntries c.tables) (hdistinct : shown.IsDistinct)
    (hupper : upper.IsDistinct) : ofLayers (lower ++ [shown, upper]) = .ok c := by
  rw [ofLayers_eq_ok_iff_reading, Layer.merged_concat] at hsettings
  have hmerged : Layer.merged (lower ++ [shown, upper]) =
      Setting.overlayEntries (Setting.overlayEntries (Layer.merged lower) shown.entries)
        upper.entries := by
    rw [List.append_cons, Layer.merged_concat, Layer.merged_concat]
  have hparts : Reading.RendersParts shown.entries c := by
    rw [hshown]
    exact Reading.tables_rendersParts c
  rw [ofLayers_eq_ok_iff_reading, hmerged]
  exact ⟨Reading.settings_of_rendersParts hsettings.1
    (hparts.overlayEntries hdistinct (Layer.merged lower)) hupper, hsettings.2⟩

end Settings

namespace Machine

/-- The layer of a file that holds the document of some settings. -/
theorem layerOf_document {m : Machine} {path file : Path} {c : Settings} {text : String}
    (htext : c.document? = some text)
    (hfinite : c.secrets.entropyThreshold.isFinite = true)
    (hfloat : Toml.float? (Toml.floatText c.secrets.entropyThreshold).toList =
      some c.secrets.entropyThreshold)
    (hpath : m.has path = true) (hfile : m.findFile? path = some file)
    (hread : m.files.read file = .ok text) :
    m.layerOf (some path) =
      some (.ok ⟨.file (m.shown file), Setting.ofEntries c.tables⟩) := by
  have hparse := Settings.parse?_document htext hfinite hfloat
  have hlayer : m.fileLayer file = .ok ⟨.file (m.shown file), Setting.ofEntries c.tables⟩ := by
    simp only [fileLayer, hread, hparse]
  simp [layerOf, Option.filter, hpath, hfile, hlayer]

/-- Settings that are shown return. Where settings are in effect that a document
can hold, the command that shows them prints their document. A run that is given
this document as the file that is named, with the same environment and above any
layers of the user and the workspace, has the same settings, and they are shown
again in the same words. -/
theorem shown_settings_return {m m' : Machine} {workspace workspace' config : Option Path}
    {path file : Path} {c : Settings} {text : String}
    (hsettings : m.settings workspace config = .ok c) (htext : c.document? = some text)
    (hfinite : c.secrets.entropyThreshold.isFinite = true)
    (hfloat : Toml.float? (Toml.floatText c.secrets.entropyThreshold).toList =
      some c.secrets.entropyThreshold)
    (henvironment : m'.environment.settings = m.environment.settings)
    (huser : ∃ layer : Option Layer, m'.layerOf m'.userFile? = layer.map .ok)
    (hworkspace : ∃ layer : Option Layer,
      m'.layerOf (workspace'.map workspaceFile) = layer.map .ok)
    (hpath : m'.has path = true) (hfile : m'.findFile? path = some file)
    (hread : m'.files.read file = .ok text) :
    m'.settings workspace' (some path) = .ok c ∧
      (∀ w, workspace = some w →
        Command.runShow m w config = { ending := .finished 0, stdout := text }) ∧
      ∀ w, workspace' = some w →
        Command.runShow m' w (some path) = { ending := .finished 0, stdout := text } := by
  have hagain : m'.settings workspace' (some path) = .ok c := by
    obtain ⟨stack, hstacks⟩ := exists_stacks hsettings
    obtain ⟨user, huser⟩ := huser
    obtain ⟨own, hown⟩ := hworkspace
    have hdocument := layerOf_document htext hfinite hfloat hpath hfile hread
    have hstacks' : m'.Stacks workspace' (some path)
        ⟨user, own, some ⟨.file (m'.shown file), Setting.ofEntries c.tables⟩,
          ⟨.environment, m'.environment.settings⟩⟩ :=
      ⟨by rintro _ ⟨⟩; exact hpath, huser, hown, hdocument, rfl⟩
    -- Of the layers of the first run only the environment counts here: all that
    -- was below it is in the document.
    have hdistinct := hstacks'.isDistinct
    simp only [Stack.layers, List.forall_mem_append, Option.toList_some,
      List.forall_mem_singleton] at hdistinct
    rw [hstacks.settings_eq, Stack.layers, hstacks.environment, ← henvironment] at hsettings
    rw [hstacks'.settings_eq, Stack.layers, Option.toList_some, List.append_assoc]
    exact Settings.ofLayers_of_tables hsettings rfl hdistinct.1.2 hdistinct.2
  refine ⟨hagain, ?_, ?_⟩
  · rintro w rfl
    simp only [Command.runShow, hsettings, htext]
  · rintro w rfl
    simp only [Command.runShow, hagain, htext]

/-- Settings with a name that holds both kinds of quotation marks three times, a
backslash and a line end. -/
def tangledSettings : Settings :=
  { scan := { parallelism := 4, ignoreFile := "it's \"\"\"a\"\"\" \\\n'''knot'''" } }

/-- A machine with a file for these settings and with the document in which they
are shown. -/
def tangledMachine : Machine where
  files := .directory
    [("old.toml", .file (.text
        "[scan]\nignore_file = \"it's \\\"\\\"\\\"a\\\"\\\"\\\" \\\\\\n'''knot'''\"\n")),
      ("new.toml", .file (.text (Toml.Block.document tangledSettings.blocks)))]
  directory := ⟨"/"⟩
  environment := [("SHIPGUARD_SCAN__PARALLELISM", "4")]

def tangledStack : Stack where
  user := none
  workspace := none
  explicit := some ⟨.file ⟨"old.toml"⟩,
    [("scan", .map [("ignore_file", .text "it's \"\"\"a\"\"\" \\\n'''knot'''")])]⟩
  environment := ⟨.environment, [("scan", .map [("parallelism", .unsigned 4)])]⟩

/-- The settings of the first file are those of the document in which they are
shown. -/
theorem tangledMachine_returns :
    tangledMachine.settings (some ⟨"/"⟩) (some ⟨"/old.toml"⟩) = .ok tangledSettings ∧
      tangledMachine.settings (some ⟨"/"⟩) (some ⟨"/new.toml"⟩) = .ok tangledSettings ∧
      Command.runShow tangledMachine ⟨"/"⟩ (some ⟨"/new.toml"⟩) =
        Command.runShow tangledMachine ⟨"/"⟩ (some ⟨"/old.toml"⟩) := by
  have hstacks : tangledMachine.Stacks (some ⟨"/"⟩) (some ⟨"/old.toml"⟩) tangledStack := by
    refine ⟨?_, by decide +kernel, by decide +kernel, by decide +kernel, by decide +kernel⟩
    rintro _ ⟨⟩
    decide +kernel
  have htables : ∀ layer ∈ tangledStack.layers, Reading.HasTables layer.entries := by
    simp [tangledStack, Stack.layers, Reading.HasTables, Reading.HasTable, Reading.partSlots,
      lookup_cons_ite, Setting.isMap]
  have hothers : ∀ leaf ∈ Reading.Leaf.all.drop 2,
      Layer.top? tangledStack.layers leaf.path = none := by decide +kernel
  have hdefaults : ∀ leaf ∈ Reading.Leaf.all.drop 2, leaf.get tangledSettings = leaf.get {} := by
    simp [Reading.Leaf.all, Reading.scanSlots, Reading.secretSlots, Reading.lookupSlots,
      Reading.policySlots, Reading.detectorSlots, Reading.Slot.leaf, tangledSettings]
  have hleaves : ∀ leaf ∈ Reading.Leaf.all,
      leaf.Given (Layer.top? tangledStack.layers leaf.path) tangledSettings := by
    rw [← List.take_append_drop 2 Reading.Leaf.all, List.forall_mem_append]
    refine ⟨?_, fun leaf hleaf => ?_⟩
    · exact List.forall_mem_cons.mpr ⟨rfl, List.forall_mem_singleton.mpr rfl⟩
    · rw [hothers leaf hleaf]
      exact hdefaults leaf hleaf
  have hold : tangledMachine.settings (some ⟨"/"⟩) (some ⟨"/old.toml"⟩) = .ok tangledSettings := by
    rw [hstacks.settings_eq, Settings.ofLayers_eq_ok_iff hstacks.isDistinct htables]
    exact ⟨hleaves, by decide +kernel⟩
  have hfloat : Toml.float? (Toml.floatText tangledSettings.secrets.entropyThreshold).toList =
      some tangledSettings.secrets.entropyThreshold := by decide +kernel
  obtain ⟨hnew, hshown, hagain⟩ := @shown_settings_return tangledMachine tangledMachine
    (some ⟨"/"⟩) (some ⟨"/"⟩) (some ⟨"/old.toml"⟩) ⟨"/new.toml"⟩ ⟨"/new.toml"⟩ tangledSettings
    (Toml.Block.document tangledSettings.blocks) hold rfl (by decide +kernel) hfloat rfl
    ⟨none, hstacks.user⟩ ⟨none, hstacks.workspace⟩ (by decide +kernel) (by decide +kernel)
    (by decide +kernel)
  exact ⟨hold, hnew, (hagain ⟨"/"⟩ rfl).trans (hshown ⟨"/"⟩ rfl).symm⟩

end Machine

end WebAudit
