import WebAudit.Command.Run
import WebAudit.Proofs.Aggregation

/-!
A threshold loses nothing to deduplication. Floor and exit rule of a policy
look at category, kind and severity only, and category and kind are part of
the key. So with a finding the policy keeps, or fails the run for, every
finding of its key that is at least as severe; the one that stays for the key
is among them. The exit status of a scan is settled by the findings of the
checks, whatever is dropped on the way to the report.
-/

namespace WebAudit

namespace Policy

/-- The floor is the same for findings with the same key. -/
theorem floorFor_eq_of_key_eq (p : Policy) {a b : Finding} (hkey : a.key = b.key) :
    p.floorFor a = p.floorFor b := by
  have hcategory : a.category = b.category := congrArg Finding.Key.category hkey
  have hkind : a.kind = b.kind := congrArg Finding.Key.kind hkey
  have happlies : ∀ rule : WidenRule, rule.applies a = rule.applies b := by
    intro rule
    simp only [WidenRule.applies, hcategory, hkind]
  simp only [floorFor, happlies]

theorem keeps_of_le (p : Policy) {a b : Finding} (hkey : a.key = b.key)
    (hle : a.le b) (hkeeps : p.keeps b) : p.keeps a := by
  simp only [keeps, decide_eq_true_eq] at hkeeps ⊢
  rw [p.floorFor_eq_of_key_eq hkey]
  exact Nat.le_trans hkeeps (Finding.severity_le_of_le a b hle)

theorem triggersExit_of_le (p : Policy) {a b : Finding} (hkey : a.key = b.key)
    (hle : a.le b) (htriggers : p.triggersExit b) : p.triggersExit a := by
  have hcategory : a.category = b.category := congrArg Finding.Key.category hkey
  simp only [triggersExit, Bool.and_eq_true, decide_eq_true_eq] at htriggers ⊢
  rw [hcategory]
  exact ⟨Nat.le_trans htriggers.1 (Finding.severity_le_of_le a b hle), htriggers.2⟩

/-- A finding that fails a run under a threshold: it is not clean, the policy
keeps it, and the exit rule applies to it. -/
def Fails (p : Policy) (f : Finding) : Prop :=
  f.severity ≠ .clean ∧ p.keeps f ∧ p.triggersExit f

end Policy

theorem aggregate_threshold_findings (policy : Policy) (found errors : List Finding) :
    (aggregate policy .threshold found errors).findings =
      (aggregate policy .all (found.filter policy.keeps) errors).findings := by
  simp only [aggregate]
  rw [Finding.filter_deduplicate _ _ fun a b hkey hle hkeeps =>
      policy.keeps_of_le hkey hle hkeeps, List.filter_comm]

/-- A run with a threshold fails exactly when one of all findings fails it. -/
theorem aggregate_shouldFail_iff (policy : Policy) (found errors : List Finding) :
    (aggregate policy .threshold found errors).shouldFail ↔
      ∃ f ∈ found, policy.Fails f := by
  simp only [aggregate, beq_self_eq_true, Bool.true_and, List.any_eq_true, List.mem_filter]
  constructor
  · rintro ⟨f, ⟨hf, hkeeps⟩, htriggers⟩
    obtain ⟨hfound, hclean⟩ := (represents_deduplicate found).sound f hf
    exact ⟨f, hfound, hclean, hkeeps, htriggers⟩
  · rintro ⟨f, hf, hclean, hkeeps, htriggers⟩
    obtain ⟨g, hfilter, horder, -⟩ := (represents_deduplicate found).complete f hf hclean
    obtain ⟨hg, hsame⟩ := mem_of_filter_eq_singleton hfilter
    have hkey : g.key = f.key := of_decide_eq_true hsame
    have hle : g.le f := (Finding.le_iff_not_lt g f).mpr horder
    exact ⟨g, ⟨hg, policy.keeps_of_le hkey hle hkeeps⟩,
      policy.triggersExit_of_le hkey hle htriggers⟩

namespace Auditor

def found (a : Auditor) (tree : Entry) (root : Path) (i : Inventory) : List Finding :=
  (a.fileFindings tree root (Technologies.ofDependencies i.dependencies) i.files).flatten ++
    a.projectFindings tree root i.files i.dependencies ++
    (a.resolution i.dependencies).findings

theorem report_outcome (a : Auditor) (tree : Entry) (root : Path) (i : Inventory) :
    (a.report tree root i).outcome =
      aggregate a.settings.policy a.mode (a.found tree root i)
        (a.resolution i.dependencies).errors := rfl

theorem report_shouldFail_iff (a : Auditor) (tree : Entry) (root : Path) (i : Inventory) :
    (a.report tree root i).outcome.shouldFail ↔
      a.mode = .threshold ∧ ∃ f ∈ a.found tree root i, a.settings.policy.Fails f := by
  rw [report_outcome]
  cases hmode : a.mode with
  | all => simp [aggregate]
  | threshold => simpa using aggregate_shouldFail_iff a.settings.policy _ _

end Auditor

namespace Command

/-- Whether the report can be put where the request wants it. -/
def Writable (m : Machine) (request : ScanRequest) (r : AuditReport) : Prop :=
  ∀ path, request.output = some path →
    ∃ files, (Effect.write (m.locate path) (rendered r request.json m.now)).apply m.files =
      .ok files

/-- A scan that gets as far as its report: root and settings are there, the
project has an inventory, and the report can be written. -/
structure Reaches (m : Machine) (request : ScanRequest) (root : Path)
    (settings : Settings) (i : Auditor.Inventory) : Prop where
  root_eq : m.canonical request.path = .ok root
  settings_eq : m.settings (some root) request.config = .ok settings
  inventory_eq : (auditor m request settings).inventory m.files root = .ok i
  writable : Writable m request ((auditor m request settings).report m.files root i)

theorem code_failure (message : String) :
    (Outcome.failure message).code = Outcome.errorCode := rfl

theorem deliver_code_iff (m : Machine) (request : ScanRequest) (r : AuditReport) :
    (deliver m request r).code = Outcome.findingsCode ↔
      Writable m request r ∧ r.outcome.shouldFail := by
  have hcode : (if r.outcome.shouldFail then Outcome.findingsCode else 0) =
      Outcome.findingsCode ↔ r.outcome.shouldFail := by
    cases r.outcome.shouldFail <;> simp [Outcome.findingsCode]
  unfold deliver Writable
  cases houtput : request.output with
  | none =>
      cases request.json <;> simpa [Outcome.code] using hcode
  | some path =>
      simp only [Option.some.injEq, forall_eq']
      cases hwrite : (Effect.write (m.locate path)
          (rendered r request.json m.now)).apply m.files with
      | error e =>
          simp [Machine.perform, hwrite, Except.map, code_failure, Outcome.errorCode,
            Outcome.findingsCode]
      | ok files =>
          simpa [Machine.perform, hwrite, Except.map, Outcome.code] using hcode

theorem auditor_policy (m : Machine) (request : ScanRequest) (settings : Settings) :
    (auditor m request settings).settings.policy = settings.policy := by
  unfold auditor
  cases request.noDeps <;> rfl

theorem auditor_mode_iff (m : Machine) (request : ScanRequest) (settings : Settings) :
    (auditor m request settings).mode = .threshold ↔ request.highOnly := by
  unfold auditor
  cases request.highOnly <;> simp

/-- A scan has the exit status of findings exactly when a threshold was asked
for, the scan gets as far as its report, and some finding fails it. -/
theorem runScan_code_iff (m : Machine) (request : ScanRequest) :
    (runScan m request).code = Outcome.findingsCode ↔
      request.highOnly ∧ ∃ root settings i, Reaches m request root settings i ∧
        ∃ f ∈ (auditor m request settings).found m.files root i, settings.policy.Fails f := by
  constructor
  · intro hcode
    unfold runScan at hcode
    cases hroot : m.canonical request.path with
    | error e => simp [hroot, code_failure, Outcome.errorCode, Outcome.findingsCode] at hcode
    | ok root =>
      cases hsettings : m.settings (some root) request.config with
      | error e =>
          simp [hroot, hsettings, settingsFailure, code_failure, Outcome.errorCode,
            Outcome.findingsCode] at hcode
      | ok settings =>
        cases hinventory : (auditor m request settings).inventory m.files root with
        | error e =>
            simp [hroot, hsettings, Auditor.scan, hinventory, Except.map, code_failure,
              Outcome.errorCode, Outcome.findingsCode] at hcode
        | ok i =>
            simp only [hroot, hsettings, Auditor.scan, hinventory, Except.map,
              deliver_code_iff, Auditor.report_shouldFail_iff, auditor_policy,
              auditor_mode_iff] at hcode
            obtain ⟨hwritable, hthreshold, hfails⟩ := hcode
            exact ⟨hthreshold, root, settings, i,
              ⟨hroot, hsettings, hinventory, hwritable⟩, hfails⟩
  · rintro ⟨hthreshold, root, settings, i, hreaches, hfails⟩
    simp only [runScan, hreaches.root_eq, hreaches.settings_eq, Auditor.scan,
      hreaches.inventory_eq, Except.map, deliver_code_iff, Auditor.report_shouldFail_iff,
      auditor_policy, auditor_mode_iff]
    exact ⟨hreaches.writable, hthreshold, hfails⟩

end Command

/-- Deduplication hides no finding from a threshold. The findings shown are
those of a report without a threshold on what the policy keeps; the run fails
exactly when some finding fails it, and then a scan for severe findings only
has the exit status of findings; without a threshold no run fails. -/
theorem threshold_loses_nothing (policy : Policy) (found errors : List Finding)
    (m : Machine) (request : ScanRequest) :
    (aggregate policy .threshold found errors).findings =
        (aggregate policy .all (found.filter policy.keeps) errors).findings ∧
      ((aggregate policy .threshold found errors).shouldFail ↔
        ∃ f ∈ found, f.severity ≠ .clean ∧ policy.keeps f ∧ policy.triggersExit f) ∧
      (aggregate policy .all found errors).shouldFail = false ∧
      ((Command.runScan m request).code = 1 ↔
        request.highOnly ∧ ∃ root settings i, Command.Reaches m request root settings i ∧
          ∃ f ∈ (Command.auditor m request settings).found m.files root i,
            settings.policy.Fails f) :=
  ⟨aggregate_threshold_findings policy found errors,
    aggregate_shouldFail_iff policy found errors, rfl, Command.runScan_code_iff m request⟩

end WebAudit
