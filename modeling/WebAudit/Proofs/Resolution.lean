import WebAudit.Proofs.Aggregation
import WebAudit.Proofs.ResolutionRun

/-!
From the resolver to the report. The resolver tells packages apart by
ecosystem, name and version; a report tells them apart by the text
`name@version` alone. Against a database that answers each query on its own,
every vulnerable package has a finding in the resolution. In the report each
text has one, so every vulnerable package is shown exactly when no two of them
share their text.
-/

namespace WebAudit

/-- The text by which a report tells packages apart. -/
def Query.coordinate (q : Query) : String := q.name ++ "@" ++ q.version

/-- A database that never fails and answers each query on its own. -/
def Database.answering (advisories : Query → List Advisory) : Database :=
  fun _ queries => .ok (queries.map advisories)

namespace Resolution

/-- What is looked up: the queries of the supported dependencies. -/
theorem exists_mem_distinct_iff (ds : List Dependency) (q : Query) :
    (∃ d ∈ distinct ds, d.query = q) ↔ ∃ d ∈ ds, d.unsupported = false ∧ d.query = q := by
  unfold distinct
  rw [distinctFrom_eq_firstOfEachFrom]
  constructor
  · rintro ⟨d, hd, hquery⟩
    have hsupported := (firstOfEachFrom_sublist _ _ _).subset hd
    simp only [List.mem_filter, Bool.not_eq_true'] at hsupported
    exact ⟨d, hsupported.1, hsupported.2, hquery⟩
  · rintro ⟨d, hd, hsupported, rfl⟩
    have hmember : d ∈ ds.filter fun d => !d.unsupported := by
      simp [hd, hsupported]
    obtain ⟨e, he, hquery, -⟩ :=
      exists_first_before Dependency.query (fun _ _ => True) [] _
        (List.pairwise_of_forall fun _ _ => trivial) hmember List.not_mem_nil
    exact ⟨e, he, hquery⟩

/-- One batch of a database that answers each query on its own. -/
theorem ofAnswer_answering (advisories : Query → List Advisory) (batch : Nat)
    (ds : List Dependency) :
    ofAnswer batch ds.length ds (Database.answering advisories batch (ds.map Dependency.query)) =
      ⟨ds.map fun d => finding d (advisories d.query), [], []⟩ := by
  simp [Database.answering, ofAnswer, List.zipWith_map_right, List.zipWith_self]

theorem ofBatches_answering (advisories : Query → List Advisory) (batch : Nat)
    (pieces : List (List Dependency)) :
    ofBatches (Database.answering advisories) batch pieces =
      ⟨pieces.flatten.map fun d => finding d (advisories d.query), [], []⟩ := by
  induction pieces generalizing batch with
  | nil => rfl
  | cons ds rest ih =>
      rw [ofBatches, ofAnswer_answering, ih]
      simp [append]

/-- Batches do not show in the resolution: it maps the answer over the packages
to look up. -/
theorem resolve_answering (advisories : Query → List Advisory) (size : Nat)
    (ds : List Dependency) :
    resolve (Database.answering advisories) size ds =
      ⟨(distinct ds).map fun d => finding d (advisories d.query), [], []⟩ := by
  rw [resolve_eq, ofBatches_answering, batches_flatten]

theorem maxSeverity_eq_clean_iff (advisories : List Advisory) :
    (maxSeverity advisories).2 = .clean ↔ advisories = [] := by
  cases advisories with
  | nil => simp [maxSeverity]
  | cons a rest =>
      simp only [maxSeverity, List.isEmpty_cons, Bool.false_eq_true, if_false, reduceCtorEq,
        iff_false]
      split
      · split
        · rename_i score _ hpositive
          simp only [Severity.ofScore, hpositive, if_true]
          repeat' split
          all_goals simp
        · simp
      · simp

/-- A looked-up package is clean exactly when it has no advisory. -/
theorem finding_severity_eq_clean_iff (d : Dependency) (advisories : List Advisory) :
    (finding d advisories).severity = .clean ↔ advisories = [] :=
  maxSeverity_eq_clean_iff advisories

theorem finding_key (d : Dependency) (advisories : List Advisory) :
    (finding d advisories).key =
      ⟨d.query.coordinate, none, .dependency, vulnerableKind⟩ := rfl

end Resolution

/-- Whether a finding is about a package: it has its name and version as the
place and its ecosystem in the payload. -/
def Finding.IsAbout (f : Finding) (q : Query) : Prop :=
  f.location = .package q.name q.version ∧
    ∃ report, f.payload = .dependency report ∧ report.ecosystem = q.ecosystem.name

theorem Ecosystem.name_injective {a b : Ecosystem} (hname : a.name = b.name) : a = b := by
  cases a <;> cases b <;> simp_all [Ecosystem.name]

/-- A finding is about one package at most. -/
theorem Finding.IsAbout.unique {f : Finding} {q q' : Query} (h : f.IsAbout q)
    (h' : f.IsAbout q') : q = q' := by
  obtain ⟨hlocation, report, hpayload, hecosystem⟩ := h
  obtain ⟨hlocation', report', hpayload', hecosystem'⟩ := h'
  have hplace := hlocation.symm.trans hlocation'
  have hreport := hpayload.symm.trans hpayload'
  simp only [Location.package.injEq] at hplace
  simp only [Payload.dependency.injEq] at hreport
  subst hreport
  have hsame := Ecosystem.name_injective (hecosystem.symm.trans hecosystem')
  cases q
  cases q'
  simp_all

theorem Resolution.finding_isAbout (d : Dependency) (advisories : List Advisory) :
    (finding d advisories).IsAbout d.query :=
  ⟨rfl, _, rfl, rfl⟩

section Report

variable (policy : Policy) (advisories : Query → List Advisory) (size : Nat)
  (ds : List Dependency)

/-- The packages that are looked up and have an advisory. -/
def Vulnerable (q : Query) : Prop :=
  (∃ d ∈ ds, d.unsupported = false ∧ d.query = q) ∧ advisories q ≠ []

def dependencyReport : Aggregated :=
  let resolved := Resolution.resolve (Database.answering advisories) size ds
  aggregate policy .all resolved.findings resolved.errors

private theorem mem_resolved_iff (f : Finding) :
    f ∈ (Resolution.resolve (Database.answering advisories) size ds).findings ↔
      ∃ d ∈ Resolution.distinct ds, Resolution.finding d (advisories d.query) = f := by
  rw [Resolution.resolve_answering]
  exact List.mem_map

private theorem represents_dependencyReport :
    Represents (Resolution.resolve (Database.answering advisories) size ds).findings
      (dependencyReport policy advisories size ds).findings :=
  represents_deduplicate _

/-- What the report shows is about vulnerable packages, under their texts. -/
theorem vulnerable_of_mem_report {f : Finding}
    (hmember : f ∈ (dependencyReport policy advisories size ds).findings) :
    ∃ q, Vulnerable advisories ds q ∧ f.IsAbout q ∧
      f.key = ⟨q.coordinate, none, .dependency, Resolution.vulnerableKind⟩ := by
  obtain ⟨hresolved, hclean⟩ :=
    (represents_dependencyReport policy advisories size ds).sound f hmember
  obtain ⟨d, hd, rfl⟩ := (mem_resolved_iff advisories size ds f).mp hresolved
  have hlookedUp := (Resolution.exists_mem_distinct_iff ds d.query).mp ⟨d, hd, rfl⟩
  have hadvisories : advisories d.query ≠ [] := fun hnone =>
    hclean ((Resolution.finding_severity_eq_clean_iff d _).mpr hnone)
  exact ⟨d.query, ⟨hlookedUp, hadvisories⟩, Resolution.finding_isAbout d _,
    Resolution.finding_key d _⟩

/-- The text of a vulnerable package is shown, by a finding about some
vulnerable package with that text. -/
theorem coordinate_reported {q : Query} (hvulnerable : Vulnerable advisories ds q) :
    ∃ f q', (dependencyReport policy advisories size ds).findings.filter
        (fun g => g.location.key = q.coordinate) = [f] ∧
      Vulnerable advisories ds q' ∧ q'.coordinate = q.coordinate ∧ f.IsAbout q' := by
  obtain ⟨hlookedUp, hadvisories⟩ := hvulnerable
  obtain ⟨d, hd, rfl⟩ := (Resolution.exists_mem_distinct_iff ds q).mpr hlookedUp
  have hresolved := (mem_resolved_iff advisories size ds _).mpr ⟨d, hd, rfl⟩
  have hclean : (Resolution.finding d (advisories d.query)).severity ≠ .clean := fun hclean =>
    hadvisories ((Resolution.finding_severity_eq_clean_iff d _).mp hclean)
  obtain ⟨f, hfilter, -, -⟩ :=
    (represents_dependencyReport policy advisories size ds).complete _ hresolved hclean
  rw [Resolution.finding_key] at hfilter
  -- all keys in the report are alike but for the text, so the text decides
  have htext : ∀ g ∈ (dependencyReport policy advisories size ds).findings,
      decide (g.location.key = d.query.coordinate) =
        decide (g.key = ⟨d.query.coordinate, none, .dependency, Resolution.vulnerableKind⟩) := by
    intro g hg
    obtain ⟨p, -, -, hkey⟩ := vulnerable_of_mem_report policy advisories size ds hg
    have hplace : g.location.key = p.coordinate := congrArg Finding.Key.location hkey
    simp [hkey, hplace]
  obtain ⟨hf, hkey⟩ := mem_of_filter_eq_singleton hfilter
  obtain ⟨q', hvulnerable', habout, hkey'⟩ :=
    vulnerable_of_mem_report policy advisories size ds hf
  refine ⟨f, q', ?_, hvulnerable', ?_, habout⟩
  · rw [List.filter_congr htext, hfilter]
  · have hsame := hkey'.symm.trans (of_decide_eq_true hkey)
    exact congrArg Finding.Key.location hsame

/-- The report does not show two packages with one text. -/
theorem eq_of_coordinate_eq {f f' : Finding} {q q' : Query}
    (hf : f ∈ (dependencyReport policy advisories size ds).findings)
    (hf' : f' ∈ (dependencyReport policy advisories size ds).findings)
    (habout : f.IsAbout q) (habout' : f'.IsAbout q')
    (htext : q.coordinate = q'.coordinate) : q = q' := by
  obtain ⟨p, -, hp, hkey⟩ := vulnerable_of_mem_report policy advisories size ds hf
  obtain ⟨p', -, hp', hkey'⟩ := vulnerable_of_mem_report policy advisories size ds hf'
  obtain rfl := hp.unique habout
  obtain rfl := hp'.unique habout'
  have hdistinct := (represents_dependencyReport policy advisories size ds).distinct
  have hsame : f = f' := by
    apply List.inj_on_of_nodup_map hdistinct hf hf'
    rw [hkey, hkey', htext]
  subst hsame
  exact hp.unique hp'

theorem reported_iff_distinct_coordinates :
    (∀ q, Vulnerable advisories ds q →
        ∃ f ∈ (dependencyReport policy advisories size ds).findings, f.IsAbout q) ↔
      ∀ q q', Vulnerable advisories ds q → Vulnerable advisories ds q' →
        q.coordinate = q'.coordinate → q = q' := by
  constructor
  · intro hreported q q' hq hq' htext
    obtain ⟨f, hf, habout⟩ := hreported q hq
    obtain ⟨f', hf', habout'⟩ := hreported q' hq'
    exact eq_of_coordinate_eq policy advisories size ds hf hf' habout habout' htext
  · intro hinjective q hq
    obtain ⟨f, q', hfilter, hq', htext, habout⟩ :=
      coordinate_reported policy advisories size ds hq
    obtain rfl := hinjective q' q hq' hq htext
    exact ⟨f, (mem_of_filter_eq_singleton hfilter).1, habout⟩

/-- Each text of a vulnerable package is shown once. So all vulnerable packages
are shown exactly when no two of them share their text. -/
theorem vulnerable_packages_reported :
    (∀ q, Vulnerable advisories ds q →
      ∃ f q', (dependencyReport policy advisories size ds).findings.filter
          (fun g => g.location.key = q.coordinate) = [f] ∧
        Vulnerable advisories ds q' ∧ q'.coordinate = q.coordinate ∧ f.IsAbout q') ∧
    ((∀ q, Vulnerable advisories ds q →
        ∃ f ∈ (dependencyReport policy advisories size ds).findings, f.IsAbout q) ↔
      ∀ q q', Vulnerable advisories ds q → Vulnerable advisories ds q' →
        q.coordinate = q'.coordinate → q = q') :=
  ⟨fun _ hq => coordinate_reported policy advisories size ds hq,
    reported_iff_distinct_coordinates policy advisories size ds⟩

end Report

def namesakes : List Dependency :=
  [⟨"requests", "2.19.0", .npm, ⟨"package.json"⟩, false, false⟩,
    ⟨"requests", "2.19.0", .pypi, ⟨"requirements.txt"⟩, false, false⟩]

/-- Of namesakes that are both vulnerable, one is not shown. -/
theorem namesake_not_reported :
    ¬ ∀ q, Vulnerable (fun _ => [.bare "GHSA-x84v-xcm2-53pg"]) namesakes q →
      ∃ f ∈ (dependencyReport {} (fun _ => [.bare "GHSA-x84v-xcm2-53pg"]) 1000
        namesakes).findings, f.IsAbout q := by
  rw [reported_iff_distinct_coordinates]
  intro hinjective
  have hnpm : Vulnerable (fun _ => [.bare "GHSA-x84v-xcm2-53pg"]) namesakes
      ⟨"requests", .npm, "2.19.0"⟩ := by
    refine ⟨⟨_, List.mem_cons_self, rfl, rfl⟩, by simp⟩
  have hpypi : Vulnerable (fun _ => [.bare "GHSA-x84v-xcm2-53pg"]) namesakes
      ⟨"requests", .pypi, "2.19.0"⟩ := by
    refine ⟨⟨_, List.mem_cons_of_mem _ List.mem_cons_self, rfl, rfl⟩, by simp⟩
  have hsame := hinjective _ _ hnpm hpypi rfl
  simp at hsame

end WebAudit
