import WebAudit.Proofs.Accounting
import WebAudit.Proofs.SecretSearch
import WebAudit.Scan

/-!
Which finding comes from where. Every check finds things of one category only.
The two checks on configuration share theirs, and differ in the kinds of what
they find. So category and kind of a finding, which are part of its key, name
the one source that it can come from.
-/

namespace WebAudit

def Configuration.kinds : List String :=
  Configuration.rules.map Configuration.Rule.kind ++ [Configuration.permissiveCorsKind]

def EnvCoverage.kinds : List String := [missingKind, uncoveredKind, trackedKind]

inductive Source where
  | secrets
  | configuration
  | upload
  | endpoint
  | httpClient
  | logging
  | rateLimit
  | gitignore
  | lookup
  deriving DecidableEq, Repr

namespace Source

def category : Source → Category
  | .secrets => .secret
  | .configuration => .configuration
  | .upload => .upload
  | .endpoint => .endpoint
  | .httpClient => .httpClient
  | .logging => .logging
  | .rateLimit => .rateLimit
  | .gitignore => .configuration
  | .lookup => .dependency

/-- The kinds of a source that shares its category with another one. -/
def kinds? : Source → Option (List String)
  | .configuration => some Configuration.kinds
  | .gitignore => some EnvCoverage.kinds
  | _ => none

/-- Whether a finding belongs to a source, by its category and kind. -/
def owns (s : Source) (f : Finding) : Bool :=
  f.category == s.category && s.kinds?.all (·.contains f.kind)

theorem owns_iff (s : Source) (f : Finding) :
    s.owns f ↔ f.category = s.category ∧ ∀ kinds, s.kinds? = some kinds → f.kind ∈ kinds := by
  cases hkinds : s.kinds? <;> simp [owns, hkinds]

theorem owns_of_category {s : Source} {f : Finding} (hfree : s.kinds? = none)
    (hcategory : f.category = s.category) : s.owns f := by
  simp [owns, hfree, hcategory]

theorem owns_eq_of_key_eq (s : Source) {f g : Finding} (hkey : f.key = g.key) :
    s.owns f = s.owns g := by
  have hcategory : f.category = g.category := congrArg Finding.Key.category hkey
  have hkind : f.kind = g.kind := congrArg Finding.Key.kind hkey
  simp only [owns, hcategory, hkind]

/-- Only the two checks on configuration share a category. -/
theorem eq_or_shared {s t : Source} (hcategory : s.category = t.category) :
    s = t ∨ (s = .configuration ∧ t = .gitignore) ∨ (s = .gitignore ∧ t = .configuration) := by
  revert hcategory
  cases s <;> cases t <;> simp [category]

theorem kinds_disjoint : ∀ kind ∈ Configuration.kinds, kind ∉ EnvCoverage.kinds := by
  decide

/-- A finding belongs to one source at most. -/
theorem owner_unique {s t : Source} {f : Finding} (hs : s.owns f) (ht : t.owns f) : s = t := by
  obtain ⟨hcategory, hkind⟩ := (owns_iff s f).mp hs
  obtain ⟨hcategory', hkind'⟩ := (owns_iff t f).mp ht
  rcases eq_or_shared (hcategory.symm.trans hcategory') with rfl | ⟨rfl, rfl⟩ | ⟨rfl, rfl⟩
  · rfl
  · exact absurd (hkind' _ rfl) (kinds_disjoint _ (hkind _ rfl))
  · exact absurd (hkind _ rfl) (kinds_disjoint _ (hkind' _ rfl))

/-- What belongs to one source goes with it and stays without any other. -/
theorem filter_not_owns {s t : Source} {fs : List Finding} (howned : ∀ f ∈ fs, t.owns f) :
    fs.filter (fun f => !s.owns f) = if t = s then [] else fs := by
  split
  · rename_i hsame
    subst hsame
    rw [List.filter_eq_nil_iff]
    intro f hf
    simp [howned f hf]
  · rename_i hother
    rw [List.filter_eq_self]
    intro f hf
    have hforeign : s.owns f ≠ true := fun hs => hother (owner_unique (howned f hf) hs)
    simpa using hforeign

end Source

section Checks

theorem Secrets.category_of_mem_inLines {settings : SecretSettings} {inEnvFile : Bool}
    {path : Path} {n : Nat} {lines : List (List Char)} {f : Finding}
    (hmember : f ∈ Secrets.inLines settings inEnvFile path n lines) : f.category = .secret := by
  induction lines generalizing n with
  | nil => simp [Secrets.inLines] at hmember
  | cons line rest ih =>
      rcases List.mem_append.mp hmember with hline | hrest
      · unfold Secrets.inLine at hline
        split at hline
        · simp at hline
        · rcases List.mem_append.mp hline with hhit | hrandom
          · obtain ⟨_, -, rfl⟩ := List.mem_map.mp hhit
            rfl
          · obtain ⟨_, -, rfl⟩ := List.mem_map.mp hrandom
            rfl
      · exact ih hrest

theorem Secrets.category_of_mem_detect {settings : SecretSettings} {ctx : FileContext}
    {f : Finding} (hmember : f ∈ Secrets.detect settings ctx) : f.category = .secret := by
  rw [Secrets.detect_eq] at hmember
  split at hmember
  · simp at hmember
  · exact Secrets.category_of_mem_inLines hmember

theorem Upload.category_of_mem_detect {ctx : FileContext} {f : Finding}
    (hmember : f ∈ Upload.detect ctx) : f.category = .upload := by
  unfold Upload.detect at hmember
  split at hmember
  · simp at hmember
  · rcases List.mem_append.mp hmember with hoffence | hgeneric
    · obtain ⟨_, -, rfl⟩ := List.mem_map.mp hoffence
      rfl
    · obtain ⟨_, -, rfl⟩ := List.mem_map.mp hgeneric
      rfl

theorem Endpoint.category_of_mem_detect {ctx : FileContext} {f : Finding}
    (hmember : f ∈ Endpoint.detect ctx) : f.category = .endpoint := by
  unfold Endpoint.detect at hmember
  split at hmember
  · simp at hmember
  · rcases List.mem_append.mp hmember with hfound | hpath
    · obtain ⟨_, -, rfl⟩ := List.mem_map.mp hfound
      rfl
    · obtain ⟨_, -, rfl⟩ := List.mem_map.mp hpath
      rfl

theorem HttpClient.category_of_mem_detect {ctx : FileContext} {f : Finding}
    (hmember : f ∈ HttpClient.detect ctx) : f.category = .httpClient := by
  unfold HttpClient.detect at hmember
  split at hmember
  · obtain ⟨_, -, rfl⟩ := List.mem_map.mp hmember
    rfl
  · simp at hmember

theorem Logging.category_of_mem_detect {ctx : FileContext} {f : Finding}
    (hmember : f ∈ Logging.detect ctx) : f.category = .logging := by
  unfold Logging.detect at hmember
  split at hmember
  · simp at hmember
  · split at hmember
    · obtain ⟨_, -, rfl⟩ := List.mem_map.mp hmember
      rfl
    · simp at hmember

namespace Configuration

theorem kind_mem_of_mem_memberHits {ancestors : List String} {inCors : Bool} {key : String}
    {value : Json} {h : Hit} (hmember : h ∈ memberHits ancestors inCors key value) :
    h.kind ∈ kinds := by
  rcases List.mem_append.mp hmember with hrule | hcors
  · obtain ⟨r, hr, hhit⟩ := List.mem_filterMap.mp hrule
    split at hhit
    · obtain rfl := Option.some.inj hhit
      exact List.mem_append_left _ (List.mem_map_of_mem hr)
    · cases hhit
  · split at hcors
    · obtain rfl := List.mem_singleton.mp hcors
      exact List.mem_append_right _ (List.mem_singleton_self _)
    · simp at hcors

mutual

theorem kind_mem_of_mem_hitsIn (ancestors : List String) (inCors : Bool) (depth : Nat)
    (value : Json) (h : Hit) (hmember : h ∈ hitsIn ancestors inCors depth value) :
    h.kind ∈ kinds := by
  cases value with
  | object members =>
      rw [hitsIn] at hmember
      split at hmember
      · simp at hmember
      · exact kind_mem_of_mem_hitsInMembers ancestors inCors depth members h hmember
  | array items =>
      rw [hitsIn] at hmember
      split at hmember
      · simp at hmember
      · exact kind_mem_of_mem_hitsInItems ancestors inCors depth 0 items h hmember
  | _ => simp [hitsIn] at hmember

theorem kind_mem_of_mem_hitsInMembers (ancestors : List String) (inCors : Bool) (depth : Nat)
    (members : List (String × Json)) (h : Hit)
    (hmember : h ∈ hitsInMembers ancestors inCors depth members) : h.kind ∈ kinds := by
  cases members with
  | nil => simp [hitsInMembers] at hmember
  | cons member rest =>
      obtain ⟨key, value⟩ := member
      rw [hitsInMembers, List.mem_append, List.mem_append] at hmember
      rcases hmember with (hown | hbelow) | hrest
      · exact kind_mem_of_mem_memberHits hown
      · exact kind_mem_of_mem_hitsIn _ _ _ value h hbelow
      · exact kind_mem_of_mem_hitsInMembers ancestors inCors depth rest h hrest

theorem kind_mem_of_mem_hitsInItems (ancestors : List String) (inCors : Bool)
    (depth position : Nat) (items : List Json) (h : Hit)
    (hmember : h ∈ hitsInItems ancestors inCors depth position items) : h.kind ∈ kinds := by
  cases items with
  | nil => simp [hitsInItems] at hmember
  | cons item rest =>
      rw [hitsInItems, List.mem_append] at hmember
      rcases hmember with hitem | hrest
      · exact kind_mem_of_mem_hitsIn _ _ _ item h hitem
      · exact kind_mem_of_mem_hitsInItems ancestors inCors depth (position + 1) rest h hrest

end

theorem mem_of_mem_placed {lines : List (List Char)} {taken : List (Nat × String)}
    {seen : List (Option Nat × String × String)} {hits : List Hit} {p : Hit × Option Nat}
    (hmember : p ∈ placed lines taken seen hits) : p.1 ∈ hits := by
  induction hits generalizing taken seen with
  | nil => simp [placed] at hmember
  | cons hit rest ih =>
      rw [placed] at hmember
      split at hmember
      · exact List.mem_cons_of_mem hit (ih hmember)
      · rcases List.mem_cons.mp hmember with rfl | hlater
        · exact List.mem_cons_self
        · exact List.mem_cons_of_mem hit (ih hlater)

theorem owns_of_mem_detect {ctx : FileContext} {f : Finding} (hmember : f ∈ detect ctx) :
    Source.configuration.owns f := by
  unfold detect at hmember
  split at hmember
  · simp at hmember
  · obtain ⟨p, hp, rfl⟩ := List.mem_map.mp hmember
    have hhit := (List.mem_filter.mp (mem_of_mem_placed hp)).1
    obtain ⟨document, -, hhit⟩ := List.mem_flatMap.mp hhit
    have hkind := kind_mem_of_mem_hitsIn [] false 0 document p.1 hhit
    refine (Source.owns_iff _ _).mpr ⟨rfl, fun kinds hkinds => ?_⟩
    obtain rfl := Option.some.inj hkinds
    exact hkind

end Configuration

namespace EnvCoverage

theorem owns_missingReport (root : Path) : Source.gitignore.owns (missingReport root) := by
  simp [Source.owns_iff, Source.category, Source.kinds?, kinds, missingReport, Finding.new,
    Finding.withDetails]

theorem owns_uncoveredReport (root : Path) (names : List String) :
    Source.gitignore.owns (uncoveredReport root names) := by
  simp [Source.owns_iff, Source.category, Source.kinds?, kinds, uncoveredReport, Finding.new,
    Finding.withDetails, Finding.withPayload]

theorem owns_trackedReport (root : Path) (name : String) :
    Source.gitignore.owns (trackedReport root name) := by
  simp [Source.owns_iff, Source.category, Source.kinds?, kinds, trackedReport, Finding.new]

theorem owns_of_mem_check {tree : Entry} {root : Path} {f : Finding}
    (hmember : f ∈ check tree root) : Source.gitignore.owns f := by
  unfold check assess at hmember
  split at hmember
  · rcases List.mem_cons.mp hmember with rfl | htracked
    · exact owns_missingReport root
    · obtain ⟨name, -, rfl⟩ := List.mem_map.mp htracked
      exact owns_trackedReport root name
  · simp at hmember
  · rcases List.mem_append.mp hmember with huncovered | htracked
    · split at huncovered
      · simp at huncovered
      · obtain rfl := List.mem_singleton.mp huncovered
        exact owns_uncoveredReport root _
    · obtain ⟨name, -, rfl⟩ := List.mem_map.mp htracked
      exact owns_trackedReport root name

end EnvCoverage

theorem RateLimit.category_of_assess? {root : Path} {read : Path → Option String}
    {files : List Path} {dependencies : List Dependency} {f : Finding}
    (hfound : RateLimit.assess? root read files dependencies = some f) :
    f.category = .rateLimit := by
  unfold RateLimit.assess? at hfound
  split at hfound
  · cases hfound
  · obtain ⟨_, -, rfl⟩ := Option.map_eq_some_iff.mp hfound
    rfl

theorem Resolution.category_of_mem_resolve {database : Database} {size : Nat}
    {ds : List Dependency} {f : Finding}
    (hmember : f ∈ (Resolution.resolve database size ds).findings) :
    f.category = .dependency := by
  obtain ⟨k, batch, -, hf⟩ := (mem_resolve_findings_iff database size ds f).mp hmember
  rw [ofBatch] at hf
  rcases fits_or_failure batch.length (database k (batch.map Dependency.query)) with
    ⟨results, hfits⟩ | ⟨e, hfailure, -⟩
  · rw [ofAnswer_of_fits hfits] at hf
    obtain ⟨i, hi⟩ := List.mem_iff_getElem?.mp hf
    obtain ⟨d, advisories, -, -, rfl⟩ := List.getElem?_zipWith_eq_some.mp hi
    rfl
  · rw [ofAnswer_of_failure hfailure] at hf
    simp at hf

end Checks

end WebAudit
