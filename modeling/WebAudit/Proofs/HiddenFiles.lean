import Mathlib.Data.List.Infix
import Mathlib.Data.List.Sort
import WebAudit.Proofs.FileChange
import WebAudit.Proofs.LayeredRules
import WebAudit.Scan

/-!
Files that the rules of a project hide have no influence on its audit. A walk
does not come to them, so the same files are found whether they are there or
not, and every other part of an audit reads files that are found. What an audit
reads on its own are the ignore files and the files with environment variables
at the root of the project; a hidden file that is none of them, and not below
one of them, can be made, removed or changed without a trace in the report and
in the calls of the database.
-/

namespace WebAudit

/-- A row of names below the root that rules hide: they ignore the file, or one
of the directories on the way to it. -/
def RuleSet.Hides (rules : RuleSet) (names : List String) : Prop :=
  rules.isIgnored (rules.root.below names) false ∨
    ∃ dir, dir <+: names ∧ dir ≠ [] ∧ dir ≠ names ∧ rules.isIgnored (rules.root.below dir) true

namespace Project

theorem not_visible_of_hides {rules : RuleSet} {names : List String} (hhides : rules.Hides names)
    (top : Entry) : ¬Visible rules top names := by
  rintro ⟨-, hentered, hkept⟩
  rcases hhides with hfile | ⟨dir, hway, hbelow, hne, hignored⟩
  · rw [hkept] at hfile
    cases hfile
  · rw [hentered dir hway hbelow hne] at hignored
    cases hignored

section

variable {before after : Entry} {root : Path} {base names : List String}
variable {entries entries' : List (String × Entry)} {rules : RuleSet}
variable (hbefore : before.HoldsProject root base) (hafter : after.HoldsProject root base)
variable (hchange : Entry.FileChange (base ++ names) before after) (hhides : rules.Hides names)

include hbefore hchange hhides

/-- A visible file is the same before and after a change of a hidden one. -/
theorem Visible.kept_file (hroot : before.lookup root = .ok (.directory entries))
    {found : List String} (hvisible : Visible rules (.directory entries) found) :
    ∃ content, before.at? (base ++ found) = some (.file content) ∧
      after.at? (base ++ found) = some (.file content) := by
  obtain ⟨content, hat⟩ := hvisible.file
  have hne : base ++ found ≠ base ++ names := by
    intro hsame
    obtain rfl := List.append_cancel_left hsame
    exact not_visible_of_hides hhides _ hvisible
  have hkind : before.kindAt? (base ++ found) = some (.file content) := by
    rw [Entry.kindAt?_append (hbefore.at_base hroot), Entry.kindAt?_eq_file_iff, hat]
  have hkind' : after.kindAt? (base ++ found) = some (.file content) :=
    hchange.keeps hkind (by simp) hne
  exact ⟨content, Entry.kindAt?_eq_file_iff.mp hkind, Entry.kindAt?_eq_file_iff.mp hkind'⟩

include hafter

theorem Visible.of_change (hroot : before.lookup root = .ok (.directory entries))
    (hroot' : after.lookup root = .ok (.directory entries'))
    {found : List String} (hvisible : Visible rules (.directory entries) found) :
    Visible rules (.directory entries') found := by
  obtain ⟨content, -, hat⟩ := hvisible.kept_file hbefore hchange hhides hroot
  rw [Entry.at?_append, hafter.at_base hroot', Option.bind_some] at hat
  exact ⟨⟨content, hat⟩, hvisible.entered, hvisible.kept⟩

theorem visible_iff_of_change (hroot : before.lookup root = .ok (.directory entries))
    (hroot' : after.lookup root = .ok (.directory entries')) (found : List String) :
    Visible rules (.directory entries) found ↔ Visible rules (.directory entries') found :=
  ⟨fun h => h.of_change hbefore hafter hchange hhides hroot hroot',
    fun h => h.of_change hafter hbefore hchange.symm hhides hroot' hroot⟩

/-- The same files are found before and after a change of a hidden one. -/
theorem discover_eq_of_change (hrules : rules.root = root) :
    discover before rules = discover after rules := by
  obtain ⟨entries, hroot, -⟩ := hbefore.directory
  obtain ⟨entries', hroot', -⟩ := hafter.directory
  have hsame := visible_iff_of_change hbefore hafter hchange hhides hroot hroot'
  rw [← hrules] at hroot hroot'
  have hirrefl : Std.Irrefl fun p q : Path => Path.order p q = .lt := by
    constructor
    intro p
    simp [Std.ReflCmp.compare_self]
  have hantisymm : Std.Antisymm fun p q : Path => Path.order p q = .lt := by
    constructor
    intro p q hpq hqp
    have hswap : Path.order p q = (Path.order q p).swap := Std.OrientedCmp.eq_swap
    rw [hswap, hqp] at hpq
    cases hpq
  have hordered := discover_pairwise hbefore.tree hroot
  have hordered' := discover_pairwise hafter.tree hroot'
  refine hordered.eq_of_mem_iff hordered' fun p => ?_
  refine (mem_discover_iff hbefore.tree hroot p).trans
    (Iff.trans ?_ (mem_discover_iff hafter.tree hroot' p).symm)
  simp only [Displaced, hsame]

/-- What a file that is found holds stays the same. -/
theorem content_eq_of_change (hrules : rules.root = root) {p : Path}
    (hfound : p ∈ discover before rules) : before.content p = after.content p := by
  obtain ⟨entries, hroot, -⟩ := hbefore.directory
  obtain ⟨found, hvisible, -, rfl⟩ :=
    (mem_discover_iff hbefore.tree (hrules ▸ hroot) p).mp hfound
  rw [hrules]
  obtain ⟨content, hat, hat'⟩ := hvisible.kept_file hbefore hchange hhides hroot
  have hbelow : found ≠ [] := by
    obtain ⟨dir, name, rfl⟩ := hvisible.eq_concat
    simp
  have hlookup := hbefore.lookup_below hat hbelow
  have hlookup' := hafter.lookup_below hat' hbelow
  exact Entry.content_eq_of_kind (by rw [hlookup, hlookup'])

end

end Project

namespace Entry.FileChange

variable {before after : Entry} {root : Path} {base names : List String}
variable (hbefore : before.HoldsProject root base) (hafter : after.HoldsProject root base)
variable (hchange : FileChange (base ++ names) before after)

include hbefore hafter hchange

/-- What stands under a name at the root stays the same, unless the change is at
or below it. -/
theorem content_join_eq {name : String} (hname : Path.isName name)
    (hother : names.head? ≠ some name) :
    before.content (root.join name) = after.content (root.join name) := by
  have haway : ¬base ++ [name] <+: base ++ names := by
    rw [List.prefix_append_right_inj]
    rintro ⟨rest, rfl⟩
    simp at hother
  apply content_eq_of_kind
  rw [hbefore.lookup_join hname, hafter.lookup_join hname, hchange.elsewhere _ haway]

theorem check_eq
    (hspared : ∀ name ∈ ".gitignore" :: EnvCoverage.variants, names.head? ≠ some name) :
    EnvCoverage.check before root = EnvCoverage.check after root := by
  have hnames : ∀ name ∈ ".gitignore" :: EnvCoverage.variants, Path.isName name := by
    decide +kernel
  have hcontent : ∀ name ∈ ".gitignore" :: EnvCoverage.variants,
      before.content (root.join name) = after.content (root.join name) := fun name hmember =>
    hchange.content_join_eq hbefore hafter (hnames name hmember) (hspared name hmember)
  have hread : before.read (root.join ".gitignore") = after.read (root.join ".gitignore") :=
    read_eq_of_content (hcontent _ List.mem_cons_self)
  have hpresent : (EnvCoverage.variants.filter fun name => before.hasFile (root.join name)) =
      EnvCoverage.variants.filter fun name => after.hasFile (root.join name) := by
    apply List.filter_congr
    intro name hmember
    rw [hasFile_eq, hasFile_eq, hcontent name (List.mem_cons_of_mem _ hmember)]
  rw [EnvCoverage.check, EnvCoverage.check, hread, hpresent]

/-- A text below the root that is read before the change is read after it: the
path leads to the same place, since that is not the changed file. -/
theorem read?_join_of_read? {text contents : String}
    (hspared : ∀ place, before.resolve (root.join text) = .ok place → ¬place <+: base ++ names)
    (hway : SameWay (base ++ names) before after ∨ Path.IsPlain text)
    (hread : before.read? (root.join text) = some contents) :
    after.read? (root.join text) = some contents := by
  obtain ⟨hempty, hslash, place, hresolve, hkind⟩ := read?_eq_some_iff.mp hread
  have haway := hspared place hresolve
  have hkind' : after.kindAt? place = some (.file (.text contents)) := by
    rw [← hchange.elsewhere place haway, hkind]
  refine read?_eq_some_iff.mpr ⟨hempty, hslash, place, ?_, hkind'⟩
  rcases hway with hway | hplain
  · have hne : place ≠ base ++ names := fun hsame => haway (hsame ▸ List.prefix_rfl)
    exact FileChange.resolve_eq hbefore.tree hafter.tree hchange hway hresolve hne
  · obtain ⟨down, hcomponents⟩ := hplain.components_join hbefore.text_ne
    obtain ⟨rfl, -⟩ := (hbefore.resolve_iff hcomponents place).mp hresolve
    exact (hafter.resolve_iff hcomponents _).mpr ⟨rfl, by simp [hkind']⟩

end Entry.FileChange

theorem collectDependencies_congr {read read' : Path → Option String} {files : List Path}
    (hread : ∀ p ∈ files, read p = read' p) (includeDev : Bool) :
    collectDependencies read files includeDev = collectDependencies read' files includeDev := by
  unfold collectDependencies
  apply List.flatMap_congr
  intro p hp
  rw [hread p hp]

theorem RateLimit.assess?_congr (root : Path) {read read' : Path → Option String}
    {files : List Path} (hread : ∀ p ∈ files, read p = read' p) (dependencies : List Dependency) :
    assess? root read files dependencies = assess? root read' files dependencies := by
  have hfind : files.find? (isDefinition read) = files.find? (isDefinition read') := by
    rw [← List.head?_filter, ← List.head?_filter]
    congr 1
    apply List.filter_congr
    intro p hp
    rw [isDefinition, isDefinition, hread p hp]
  rw [assess?, assess?, evidence?, evidence?, hfind]

namespace Auditor

def callsFor (a : Auditor) (tree : Entry) (root : Path) : Except ScanError (List (List Query)) :=
  (a.inventory tree root).map fun i => a.calls i.dependencies

/-- An audit reads the files of the inventory and what the checks on the project
look at. -/
theorem report_congr (a : Auditor) {before after : Entry} {root : Path} {i : Inventory}
    (hcontent : ∀ p ∈ i.files, before.content p = after.content p)
    (hcheck : EnvCoverage.check before root = EnvCoverage.check after root) :
    a.report before root i = a.report after root i := by
  have hread : ∀ p ∈ i.files, before.read? p = after.read? p :=
    fun p hp => Entry.read?_eq_of_content (hcontent p hp)
  have hfiles : ∀ technologies, a.fileFindings before root technologies i.files =
      a.fileFindings after root technologies i.files := by
    intro technologies
    unfold fileFindings
    apply List.filterMap_congr
    intro p hp
    rw [readable?, readable?, hcontent p hp]
  have hproject : a.projectFindings before root i.files i.dependencies =
      a.projectFindings after root i.files i.dependencies := by
    rw [projectFindings, projectFindings, hcheck, RateLimit.assess?_congr root hread]
  simp only [report, hfiles, hproject]

/-- Hidden files have no influence. A regular file below the root of a project
without links is made, removed or changed; the rules hide it, and it is neither
at nor below the ignore files and the files with environment variables that are
looked at by name. Then the report and the calls of the database are the same.
The directories on the way to the file may be made or removed with it, unless
the path of the ignore file of the settings leaves the project or climbs. -/
theorem hidden_file_has_no_influence (a : Auditor) (root : Path) (base names : List String)
    (before after : Entry) (rules : RuleSet)
    (hbefore : before.HoldsProject root base) (hafter : after.HoldsProject root base)
    (hchange : Entry.FileChange (base ++ names) before after)
    (hrules : a.rules before root = .ok rules) (hhides : rules.Hides names)
    (hspared : ∀ name ∈ ".gitignore" :: EnvCoverage.variants, names.head? ≠ some name)
    (hignoreFile : ∀ tree ∈ [before, after], ∀ place,
      tree.resolve (root.join a.settings.scan.ignoreFile) = .ok place → ¬place <+: base ++ names)
    (hway : Entry.SameWay (base ++ names) before after ∨
      Path.IsPlain a.settings.scan.ignoreFile) :
    a.scan after root = a.scan before root ∧ a.callsFor after root = a.callsFor before root := by
  have hroot : rules.root = root := (RuleSet.of_build hrules).1
  have hignore : before.read? (root.join a.settings.scan.ignoreFile) =
      after.read? (root.join a.settings.scan.ignoreFile) := by
    apply Option.ext
    intro text
    constructor
    · exact hchange.read?_join_of_read? hbefore hafter (hignoreFile before (by simp)) hway
    · exact hchange.symm.read?_join_of_read? hafter hbefore (hignoreFile after (by simp))
        (hway.imp_left Entry.SameWay.symm)
  have hrules' : a.rules after root = .ok rules := by
    rw [← hrules, Auditor.rules, Auditor.rules, hignore]
  have hfiles := Project.discover_eq_of_change hbefore hafter hchange hhides hroot
  have hcontent : ∀ p ∈ Project.discover before rules, before.content p = after.content p :=
    fun p => Project.content_eq_of_change hbefore hafter hchange hhides hroot
  have hread : ∀ p ∈ Project.discover before rules, before.read? p = after.read? p :=
    fun p hp => Entry.read?_eq_of_content (hcontent p hp)
  have hinventory : ∀ {tree}, tree.HoldsProject root base → a.rules tree root = .ok rules →
      a.inventory tree root = .ok ⟨Project.discover tree rules,
        collectDependencies tree.read? (Project.discover tree rules)
          a.settings.scan.includeDevDependencies⟩ := by
    intro tree hproject hrules
    rw [inventory, if_pos hproject.hasDirectory, hrules]
  have hold := hinventory hbefore hrules
  have hnew := hinventory hafter hrules'
  rw [← hfiles, ← collectDependencies_congr hread, ← hold] at hnew
  constructor
  · rw [scan, scan, hnew, hold]
    exact congrArg Except.ok
      (report_congr a hcontent (hchange.check_eq hbefore hafter hspared)).symm
  · rw [callsFor, callsFor, hnew]

/-- A site whose ignore file takes manifests back. -/
def sourceTree : Entry :=
  .directory [("site", .directory
    [(".shipguardignore", .file (.text "!package.json\n")),
      ("package.json", .file (.text "\x7b\"dependencies\": \x7b\"vue\": \"3.0.0\"\x7d\x7d")),
      ("app.js", .file (.text "fetch('/a');\n"))])]

/-- The site with a manifest in a directory for build output. -/
def builtTree : Entry :=
  Entry.put (.file (.text "\x7b\"dependencies\": \x7b\"lodash\": \"1.0.0\"\x7d\x7d"))
    ["site", "dist", "package.json"] sourceTree

def siteAuditor : Auditor := { database := some fun _ queries => .ok (queries.map fun _ => []) }

/-- No rule ignores the manifest, but its directory is ignored, so both can be
made. -/
theorem buildOutput_has_no_influence :
    (∃ rules, siteAuditor.rules sourceTree ⟨"site"⟩ = .ok rules ∧
      rules.isIgnored (rules.root.below ["dist", "package.json"]) false = false ∧
      rules.Hides ["dist", "package.json"]) ∧
    sourceTree.kindAt? ["site", "dist"] = none ∧
    builtTree.kindAt? ["site", "dist"] = some .directory ∧
    siteAuditor.scan builtTree ⟨"site"⟩ = siteAuditor.scan sourceTree ⟨"site"⟩ ∧
    siteAuditor.callsFor builtTree ⟨"site"⟩ = siteAuditor.callsFor sourceTree ⟨"site"⟩ := by
  have hsource : sourceTree.HoldsProject ⟨"site"⟩ ["site"] :=
    ⟨by decide +kernel, by with_unfolding_all rfl, _, by with_unfolding_all rfl,
      by decide +kernel⟩
  have hbuilt : builtTree.HoldsProject ⟨"site"⟩ ["site"] :=
    ⟨by decide +kernel, by with_unfolding_all rfl, _, by with_unfolding_all rfl,
      by decide +kernel⟩
  have hchange : Entry.FileChange ["site", "dist", "package.json"] sourceTree builtTree := by
    apply Entry.FileChange.put
    · intro k hkind
      have hnothing : sourceTree.kindAt? ["site", "dist", "package.json"] = none := by
        decide +kernel
      rw [hnothing] at hkind
      cases hkind
    · have hway : ∀ names ∈ ["site", "dist", "package.json"].inits,
          names ≠ ["site", "dist", "package.json"] →
            ∀ k ∈ sourceTree.kindAt? names, k = .directory := by
        decide +kernel
      exact fun names hnames => hway names ((List.mem_inits _ _).mpr hnames)
  obtain ⟨rules, hrules, hkept, hignored⟩ : ∃ rules,
      siteAuditor.rules sourceTree ⟨"site"⟩ = .ok rules ∧
        rules.isIgnored (rules.root.below ["dist", "package.json"]) false = false ∧
        rules.isIgnored (rules.root.below ["dist"]) true := by
    have hcheck : (siteAuditor.rules sourceTree ⟨"site"⟩).toOption.any (fun rules =>
        !rules.isIgnored (rules.root.below ["dist", "package.json"]) false &&
          rules.isIgnored (rules.root.below ["dist"]) true) := by
      decide +kernel
    cases hrules : siteAuditor.rules sourceTree ⟨"site"⟩ with
    | error e => simp [hrules, Except.toOption] at hcheck
    | ok rules => exact ⟨rules, rfl, by simpa [hrules, Except.toOption] using hcheck⟩
  have hhides : rules.Hides ["dist", "package.json"] :=
    Or.inr ⟨["dist"], by decide, by decide, by decide, hignored⟩
  have hignoreFile : ∀ tree ∈ [sourceTree, builtTree], ∀ place,
      tree.resolve ((Path.mk "site").join siteAuditor.settings.scan.ignoreFile) = .ok place →
        ¬place <+: ["site"] ++ ["dist", "package.json"] := by
    have hplace : ∀ tree ∈ [sourceTree, builtTree],
        tree.resolve ((Path.mk "site").join siteAuditor.settings.scan.ignoreFile) =
          .ok ["site", ".shipguardignore"] := by
      intro tree htree
      rcases List.mem_pair.mp htree with rfl | rfl <;> with_unfolding_all rfl
    intro tree htree place hresolve
    rw [hplace tree htree] at hresolve
    obtain rfl := Except.ok.inj hresolve
    decide
  have hplain : Path.IsPlain siteAuditor.settings.scan.ignoreFile :=
    ⟨by decide +kernel, by decide +kernel⟩
  refine ⟨⟨rules, hrules, hkept, hhides⟩, by decide +kernel, by decide +kernel, ?_⟩
  exact hidden_file_has_no_influence siteAuditor ⟨"site"⟩ ["site"] ["dist", "package.json"]
    sourceTree builtTree rules hsource hbuilt hchange hrules hhides (by decide) hignoreFile
    (Or.inr hplain)

end Auditor

end WebAudit
