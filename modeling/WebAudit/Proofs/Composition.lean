import WebAudit.Proofs.Ownership
import WebAudit.Proofs.Threshold

/-!
Sources do not interfere. What an audit finds is a concatenation of what its
sources find, each behind its own switch; a report sorts it, keeps one finding
for each key and applies the policy. All of these steps commute with dropping
what belongs to one source, since the key of a finding names its source. So a
report without a source is the report with it, less the findings of the source,
and the database has no say in what is found anywhere else.
-/

namespace WebAudit

/-- A filter that goes by keys can be applied to the findings of a report or
before the report is made. -/
theorem aggregate_findings_filter (policy : Policy) (mode : ReportMode)
    (found errors errors' : List Finding) (keep : Finding → Bool)
    (hkey : ∀ f g : Finding, f.key = g.key → keep f = keep g) :
    (aggregate policy mode (found.filter keep) errors').findings =
      (aggregate policy mode found errors).findings.filter keep := by
  have hunique : Finding.deduplicate
        ((found.filter keep).filter fun f => f.severity.isReportable) =
      (Finding.deduplicate (found.filter fun f => f.severity.isReportable)).filter keep := by
    rw [Finding.filter_deduplicate keep _ fun a b hsame _ hb => (hkey a b hsame).trans hb,
      List.filter_comm]
  cases mode with
  | all => simpa only [aggregate] using hunique
  | threshold =>
      simp only [aggregate, hunique]
      rw [List.filter_comm]

namespace Registry

/-- Checks with new names are added at the end. -/
theorem foldl_register (r : Registry) (ds : List Detector)
    (hnames : ((r.detectors ++ ds).map Detector.name).Nodup) :
    (ds.foldl register r).detectors = r.detectors ++ ds := by
  induction ds generalizing r with
  | nil => simp
  | cons d rest ih =>
      have hkept : (r.register d).detectors = r.detectors ++ [d] := by
        have hother : r.detectors.filter (fun e => e.name != d.name) = r.detectors := by
          rw [List.filter_eq_self]
          intro e he
          rw [List.map_append, List.map_cons, List.nodup_append] at hnames
          simpa using hnames.2.2 e.name (List.mem_map_of_mem he) d.name List.mem_cons_self
        rw [register, hother]
      rw [List.foldl_cons, ih _ (by simpa [hkept] using hnames), hkept, List.append_assoc]
      rfl

theorem builtin_names_nodup (settings : Settings) :
    ((Detector.builtin settings).map Detector.name).Nodup := by
  have hnames : (Detector.builtin settings).map Detector.name =
      ["secrets", "configuration", "upload", "endpoint", "http_client", "logging"] := rfl
  rw [hnames]
  decide

private theorem flatMap_filter {α β : Type} (test : α → Bool) (g : α → List β)
    (items : List α) :
    (items.filter test).flatMap g = items.flatMap fun a => if test a then g a else [] := by
  induction items with
  | nil => rfl
  | cons a rest ih => cases htest : test a <;> simp [htest, ih]

/-- The checks of a run find what each of those that are on finds. -/
theorem run_ofSettings (settings : Settings) (ctx : FileContext) :
    (ofSettings settings).run ctx =
      (Detector.builtin settings).flatMap fun d =>
        if settings.detectors.isEnabled d.name then d.detect ctx else [] := by
  have hdetectors : (ofSettings settings).detectors =
      (Detector.builtin settings).filter fun d => settings.detectors.isEnabled d.name := by
    rw [ofSettings, foldl_register]
    · rfl
    · exact (builtin_names_nodup settings).sublist (List.filter_sublist.map Detector.name)
  rw [run, hdetectors, flatMap_filter]

end Registry

namespace Settings

def isOn (settings : Settings) : Source → Bool
  | .secrets => settings.detectors.secrets
  | .configuration => settings.detectors.configuration
  | .upload => settings.detectors.upload
  | .endpoint => settings.detectors.endpoint
  | .httpClient => settings.detectors.httpClient
  | .logging => settings.detectors.logging
  | .rateLimit => settings.detectors.rateLimit
  | .gitignore => settings.detectors.gitignore
  | .lookup => settings.dependencies.enabled

def switch (settings : Settings) (on : Bool) : Source → Settings
  | .secrets => { settings with detectors.secrets := on }
  | .configuration => { settings with detectors.configuration := on }
  | .upload => { settings with detectors.upload := on }
  | .endpoint => { settings with detectors.endpoint := on }
  | .httpClient => { settings with detectors.httpClient := on }
  | .logging => { settings with detectors.logging := on }
  | .rateLimit => { settings with detectors.rateLimit := on }
  | .gitignore => { settings with detectors.gitignore := on }
  | .lookup => { settings with dependencies.enabled := on }

/-- A switch is about its own source only. -/
theorem isOn_switch (settings : Settings) (on : Bool) (s t : Source) :
    (settings.switch on s).isOn t = if t = s then on else settings.isOn t := by
  cases s <;> cases t <;> rfl

@[simp]
theorem switch_scan (settings : Settings) (on : Bool) (s : Source) :
    (settings.switch on s).scan = settings.scan := by
  cases s <;> rfl

@[simp]
theorem switch_policy (settings : Settings) (on : Bool) (s : Source) :
    (settings.switch on s).policy = settings.policy := by
  cases s <;> rfl

@[simp]
theorem switch_batchSize (settings : Settings) (on : Bool) (s : Source) :
    (settings.switch on s).dependencies.batchSize = settings.dependencies.batchSize := by
  cases s <;> rfl

@[simp]
theorem switch_builtin (settings : Settings) (on : Bool) (s : Source) :
    Detector.builtin (settings.switch on s) = Detector.builtin settings := by
  cases s <;> rfl

/-- Each check on files has a switch, and finds what belongs to the source of
that switch. -/
theorem builtin_owned {settings : Settings} {d : Detector}
    (hmember : d ∈ Detector.builtin settings) :
    ∃ t : Source, (∀ other : Settings, other.detectors.isEnabled d.name = other.isOn t) ∧
      ∀ ctx, ∀ f ∈ d.detect ctx, t.owns f := by
  simp only [Detector.builtin, List.mem_cons, List.not_mem_nil, or_false] at hmember
  rcases hmember with rfl | rfl | rfl | rfl | rfl | rfl
  · exact ⟨.secrets, fun _ => rfl, fun _ _ hf =>
      Source.owns_of_category rfl (Secrets.category_of_mem_detect hf)⟩
  · exact ⟨.configuration, fun _ => rfl, fun _ _ hf => Configuration.owns_of_mem_detect hf⟩
  · exact ⟨.upload, fun _ => rfl, fun _ _ hf =>
      Source.owns_of_category rfl (Upload.category_of_mem_detect hf)⟩
  · exact ⟨.endpoint, fun _ => rfl, fun _ _ hf =>
      Source.owns_of_category rfl (Endpoint.category_of_mem_detect hf)⟩
  · exact ⟨.httpClient, fun _ => rfl, fun _ _ hf =>
      Source.owns_of_category rfl (HttpClient.category_of_mem_detect hf)⟩
  · exact ⟨.logging, fun _ => rfl, fun _ _ hf =>
      Source.owns_of_category rfl (Logging.category_of_mem_detect hf)⟩

/-- What a source finds behind its switch, when some source is switched off. -/
theorem gated_switch (settings : Settings) (s : Source) {t : Source} {fs : List Finding}
    (howned : ∀ f ∈ fs, t.owns f) :
    (if (settings.switch false s).isOn t then fs else []) =
      (if (settings.switch true s).isOn t then fs else []).filter fun f => !s.owns f := by
  rw [isOn_switch, isOn_switch]
  by_cases hsame : t = s
  · simp [hsame, Source.filter_not_owns (hsame ▸ howned)]
  · simp only [if_neg hsame]
    split
    · rw [Source.filter_not_owns howned, if_neg hsame]
    · rfl

end Settings

namespace Auditor

def switch (a : Auditor) (on : Bool) (s : Source) : Auditor :=
  { a with settings := a.settings.switch on s }

variable (a : Auditor) (tree : Entry) (root : Path) (i : Inventory) (s : Source)

/-- Which files an audit looks at does not depend on what it looks for. -/
theorem inventory_switch (on : Bool) :
    (a.switch on s).inventory tree root = a.inventory tree root := by
  simp only [inventory, rules, switch, Settings.switch_scan]

theorem run_switch_off (ctx : FileContext) :
    (Registry.ofSettings (a.switch false s).settings).run ctx =
      ((Registry.ofSettings (a.switch true s).settings).run ctx).filter fun f => !s.owns f := by
  simp only [Registry.run_ofSettings, switch, Settings.switch_builtin, List.filter_flatMap]
  apply List.flatMap_congr
  intro d hd
  obtain ⟨t, hswitch, howned⟩ := Settings.builtin_owned hd
  rw [hswitch, hswitch]
  exact a.settings.gated_switch s (howned ctx)

theorem fileFindings_switch_off (technologies : Technologies) (files : List Path) :
    (a.switch false s).fileFindings tree root technologies files =
      ((a.switch true s).fileFindings tree root technologies files).map
        (List.filter fun f => !s.owns f) := by
  have hreadable : ∀ on path, (a.switch on s).readable? tree path = a.readable? tree path := by
    intro on path
    simp only [readable?, switch, Settings.switch_scan]
  simp only [fileFindings, hreadable, List.map_filterMap, Option.map_map, run_switch_off]
  rfl

theorem projectFindings_switch_off (files : List Path) (dependencies : List Dependency) :
    (a.switch false s).projectFindings tree root files dependencies =
      ((a.switch true s).projectFindings tree root files dependencies).filter
        fun f => !s.owns f := by
  have henv : ∀ f ∈ EnvCoverage.check tree root, Source.gitignore.owns f :=
    fun _ hf => EnvCoverage.owns_of_mem_check hf
  have hlimit : ∀ f ∈ (RateLimit.assess? root tree.read? files dependencies).toList,
      Source.rateLimit.owns f := by
    intro f hf
    exact Source.owns_of_category rfl
      (RateLimit.category_of_assess? (Option.mem_toList.mp hf))
  rw [projectFindings, projectFindings, List.filter_append]
  exact congrArg₂ _ (a.settings.gated_switch s henv) (a.settings.gated_switch s hlimit)

/-- What is known about dependencies when the lookup is on. -/
def lookedUp (dependencies : List Dependency) : List Finding :=
  match a.database with
  | some database =>
    (Resolution.resolve database a.settings.dependencies.batchSize dependencies).findings
  | none => []

theorem resolution_findings (dependencies : List Dependency) :
    (a.resolution dependencies).findings =
      if a.settings.isOn .lookup then a.lookedUp dependencies else [] := by
  unfold resolution activeDatabase? lookedUp Settings.isOn
  cases a.settings.dependencies.enabled <;> cases a.database <;> rfl

theorem owns_of_mem_lookedUp (dependencies : List Dependency) :
    ∀ f ∈ a.lookedUp dependencies, Source.lookup.owns f := by
  intro f hf
  unfold lookedUp at hf
  split at hf
  · exact Source.owns_of_category rfl (Resolution.category_of_mem_resolve hf)
  · simp at hf

theorem resolution_switch_off (dependencies : List Dependency) :
    ((a.switch false s).resolution dependencies).findings =
      ((a.switch true s).resolution dependencies).findings.filter fun f => !s.owns f := by
  have hlookedUp : ∀ on, (a.switch on s).lookedUp dependencies = a.lookedUp dependencies := by
    intro on
    simp only [lookedUp, switch, Settings.switch_batchSize]
  rw [resolution_findings, resolution_findings, hlookedUp, hlookedUp]
  exact a.settings.gated_switch s (a.owns_of_mem_lookedUp dependencies)

/-- All that is found without a source is all that is found with it, less what
belongs to it. -/
theorem found_switch_off :
    (a.switch false s).found tree root i =
      ((a.switch true s).found tree root i).filter fun f => !s.owns f := by
  simp only [found, List.filter_append, fileFindings_switch_off, projectFindings_switch_off,
    resolution_switch_off, List.filter_flatten]

end Auditor

structure AuditReport.View where
  filesScanned : Nat
  technologies : Technologies
  findings : List Finding

def AuditReport.view (r : AuditReport) : AuditReport.View :=
  ⟨r.filesScanned, r.technologies, r.outcome.findings⟩

def AuditReport.View.without (v : AuditReport.View) (s : Source) : AuditReport.View :=
  { v with findings := v.findings.filter fun f => !s.owns f }

namespace Auditor

theorem report_switch_off (a : Auditor) (tree : Entry) (root : Path) (i : Inventory)
    (s : Source) :
    ((a.switch false s).report tree root i).view =
      ((a.switch true s).report tree root i).view.without s := by
  have hpolicy : ∀ on, (a.switch on s).settings.policy = a.settings.policy := by
    intro on
    simp [switch]
  have hfindings : ((a.switch false s).report tree root i).outcome.findings =
      ((a.switch true s).report tree root i).outcome.findings.filter fun f => !s.owns f := by
    rw [report_outcome, report_outcome, found_switch_off, hpolicy, hpolicy]
    apply aggregate_findings_filter
    intro f g hkey
    rw [s.owns_eq_of_key_eq hkey]
  have hfiles : ((a.switch false s).report tree root i).filesScanned =
      ((a.switch true s).report tree root i).filesScanned := by
    simp only [report, fileFindings_switch_off, List.length_map]
  simp only [AuditReport.view, AuditReport.View.without, hfindings, hfiles]
  rfl

theorem scan_switch_off (a : Auditor) (tree : Entry) (root : Path) (s : Source) :
    ((a.switch false s).scan tree root).map AuditReport.view =
      ((a.switch true s).scan tree root).map fun r => r.view.without s := by
  simp only [scan, inventory_switch]
  cases a.inventory tree root with
  | error e => rfl
  | ok i => exact congrArg Except.ok (report_switch_off a tree root i s)

/-- What is found besides dependencies does not depend on the database. -/
theorem found_database (a : Auditor) (database : Option Database) (tree : Entry) (root : Path)
    (i : Inventory) :
    (({ a with database := database } : Auditor).found tree root i).filter
        (fun f => !Source.lookup.owns f) =
      (a.found tree root i).filter fun f => !Source.lookup.owns f := by
  have hnone : ∀ b : Auditor, (b.resolution i.dependencies).findings.filter
      (fun f => !Source.lookup.owns f) = [] := by
    intro b
    have howned : ∀ f ∈ (b.resolution i.dependencies).findings, Source.lookup.owns f := by
      intro f hf
      rw [resolution_findings] at hf
      split at hf
      · exact b.owns_of_mem_lookedUp _ f hf
      · simp at hf
    rw [Source.filter_not_owns howned, if_pos rfl]
  simp only [found, List.filter_append, hnone]
  rfl

theorem report_database (a : Auditor) (database : Option Database) (tree : Entry) (root : Path)
    (i : Inventory) :
    (({ a with database := database } : Auditor).report tree root i).view.without .lookup =
      (a.report tree root i).view.without .lookup := by
  have hkey : ∀ f g : Finding, f.key = g.key →
      (!Source.lookup.owns f) = !Source.lookup.owns g := by
    intro f g hkey
    rw [Source.lookup.owns_eq_of_key_eq hkey]
  have hfindings : ∀ b : Auditor,
      (b.report tree root i).outcome.findings.filter (fun f => !Source.lookup.owns f) =
        (aggregate b.settings.policy b.mode
          ((b.found tree root i).filter fun f => !Source.lookup.owns f) []).findings := by
    intro b
    rw [report_outcome]
    exact (aggregate_findings_filter _ _ _ _ _ _ hkey).symm
  simp only [AuditReport.view, AuditReport.View.without, hfindings, found_database]
  rfl

theorem scan_database (a : Auditor) (database : Option Database) (tree : Entry) (root : Path) :
    (({ a with database := database } : Auditor).scan tree root).map
        (fun r => r.view.without .lookup) =
      (a.scan tree root).map fun r => r.view.without .lookup := by
  have hinventory : ({ a with database := database } : Auditor).inventory tree root =
      a.inventory tree root := rfl
  simp only [scan, hinventory]
  cases a.inventory tree root with
  | error e => rfl
  | ok i => exact congrArg Except.ok (report_database a database tree root i)

end Auditor

/-- Sources do not interfere. A scan without a source shows what the scan with
it shows, in the same order, less the findings that belong to the source; it
looks at as many files and sees the same technologies. And whatever a database
answers, if there is one at all, what is shown besides dependencies is the
same. -/
theorem sources_do_not_interfere (a : Auditor) (tree : Entry) (root : Path) :
    (∀ s : Source, ((a.switch false s).scan tree root).map AuditReport.view =
      ((a.switch true s).scan tree root).map fun r => r.view.without s) ∧
    ∀ database : Option Database,
      (({ a with database := database } : Auditor).scan tree root).map
          (fun r => r.view.without .lookup) =
        (a.scan tree root).map fun r => r.view.without .lookup :=
  ⟨fun s => a.scan_switch_off tree root s, fun database => a.scan_database database tree root⟩

end WebAudit
