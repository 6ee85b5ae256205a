import Mathlib.Data.List.Basic
import WebAudit.Detector.RateLimit
import WebAudit.Proofs.FileRoutes
import WebAudit.Proofs.RelativePaths
import WebAudit.Proofs.SensitiveRoutes

/-!
What shows that a project serves routes. A script below a directory of routes
shows it by its place, and a script that registers a route or exports a handler
by its text. The check for rate limits takes the first file of the first kind,
or else the first one of the second kind. The check for sensitive routes goes
another way to the place of a file, by all names of its path, but whatever it
reports for a place or for a registered route is one of the two kinds. So where
it reports such a route, a project without rate limits is reported too.
-/

namespace WebAudit

open Text

theorem Text.Pattern.findFrom?_eq (p : Pattern) {resume i : Nat} (hresume : resume ≤ i)
    (previous : Option Char) (cs : List Char) :
    p.findFrom? previous i cs = (p.matchesFrom resume previous i cs).head? := by
  induction cs generalizing previous i with
  | nil =>
      rw [findFrom?, matchesFrom, if_neg (by omega)]
      cases p.matchAt? ⟨previous, [], i, []⟩ <;> rfl
  | cons c cs ih =>
      rw [findFrom?, matchesFrom, if_neg (by omega)]
      cases p.matchAt? ⟨previous, c :: cs, i, []⟩ with
      | some m => rfl
      | none => exact ih (by omega) (some c)

theorem Text.Pattern.occurs_iff (p : Pattern) (cs : List Char) :
    p.occurs cs = true ↔ ∃ m, m ∈ p.matchesIn cs := by
  rw [occurs, find?, p.findFrom?_eq (Nat.le_refl 0), List.isSome_head?]
  exact ⟨List.exists_mem_of_ne_nil _, fun ⟨_, hm⟩ => List.ne_nil_of_mem hm⟩

theorem Script.Language.ofPath?_congr {p q : Path}
    (hlast : p.components.getLast? = q.components.getLast?) : ofPath? p = ofPath? q := by
  rw [ofPath?, ofPath?, Path.extension?, Path.extension?, Path.fileName?, Path.fileName?, hlast]

theorem Script.Language.exists_name_of_ofPath? {p : Path} (hscript : (ofPath? p).isSome) :
    ∃ front name, p.components = front ++ [.name name] := by
  obtain ⟨language, hlanguage⟩ := Option.isSome_iff_exists.mp hscript
  obtain ⟨ext, hext, -⟩ := Option.bind_eq_some_iff.mp hlanguage
  obtain ⟨name, hname, -⟩ := Option.bind_eq_some_iff.mp hext
  unfold Path.fileName? at hname
  split at hname
  · rename_i s hlast
    obtain ⟨front, hfront⟩ := List.getLast?_eq_some_iff.mp hlast
    exact ⟨front, s, hfront⟩
  · cases hname

namespace Endpoint

/-- The components of a file behind those of the root, and all of them if the
file does not lie below the root. -/
inductive Below (root file : Path) : List Component → Prop
  | inside {rest : List Component} (hrest : file.components = root.components ++ rest) :
      Below root file rest
  | outside (hroot : ¬root.components <+: file.components) : Below root file file.components

structure InRouteDirectory (root file : Path) : Prop where
  script : (Script.Language.ofPath? file).isSome
  below : ∃ dirs name marker, Below root file (dirs ++ [.name name]) ∧
    marker ∈ routeDirectories ∧ .name marker ∈ dirs

section Places

variable {root file : Path} {rest : List Component}

theorem below_iff : Below root file rest ↔
    rest = ((Path.relativeTo? root file).getD file).components := by
  cases hrelative : Path.relativeTo? root file with
  | none =>
      rw [Path.relativeTo?_eq_none_iff] at hrelative
      constructor
      · rintro (hrest | -)
        · exact absurd ⟨rest, hrest.symm⟩ hrelative
        · rfl
      · rintro rfl
        exact .outside hrelative
  | some relative =>
      have hcomponents := Path.components_relativeTo? hrelative
      constructor
      · rintro (hrest | hroot)
        · rw [hcomponents] at hrest
          exact (List.append_cancel_left hrest).symm
        · exact absurd ⟨_, hcomponents.symm⟩ hroot
      · rintro rfl
        exact .inside hcomponents

theorem Below.getLast?_eq (hbelow : Below root file rest) (hrest : rest ≠ []) :
    rest.getLast? = file.components.getLast? := by
  cases hbelow with
  | inside hfile => rw [hfile, List.getLast?_append_of_ne_nil _ hrest]
  | outside hroot => rfl

theorem mem_names_iff {p : Path} {s : String} : s ∈ names p ↔ .name s ∈ p.components := by
  rw [names, List.mem_filterMap]
  constructor
  · rintro ⟨c, hc, hs⟩
    split at hs
    · cases hs
      exact hc
    · cases hs
  · exact fun hs => ⟨_, hs, rfl⟩

theorem Below.unique {rest' : List Component} (hbelow : Below root file rest)
    (hbelow' : Below root file rest') : rest = rest' := by
  rw [below_iff.mp hbelow, below_iff.mp hbelow']

theorem Below.ofPath?_eq {relative : Path} (hbelow : Below root file relative.components)
    (hsome : relative.components ≠ []) :
    Script.Language.ofPath? relative = Script.Language.ofPath? file := by
  apply Script.Language.ofPath?_congr
  exact hbelow.getLast?_eq hsome

theorem isRouteFile_iff :
    isRouteFile ((Path.relativeTo? root file).getD file) = true ↔ InRouteDirectory root file := by
  have hbelow : Below root file ((Path.relativeTo? root file).getD file).components :=
    below_iff.mpr rfl
  generalize (Path.relativeTo? root file).getD file = relative at hbelow
  constructor
  · intro hroute
    obtain ⟨hscript, hdirectory⟩ := Bool.and_eq_true_iff.mp hroute
    obtain ⟨front, name, hcomponents⟩ := Script.Language.exists_name_of_ofPath? hscript
    obtain ⟨parent, hparent, hfront⟩ := Path.components_parent? hcomponents
    rw [hparent, Option.any_some, List.any_eq_true] at hdirectory
    obtain ⟨marker, hmarker, hknown⟩ := hdirectory
    rw [mem_names_iff, hfront] at hmarker
    rw [hbelow.ofPath?_eq (by simp [hcomponents])] at hscript
    rw [hcomponents] at hbelow
    exact ⟨hscript, front, name, marker, hbelow, List.contains_iff_mem.mp hknown, hmarker⟩
  · rintro ⟨hscript, dirs, name, marker, hdirs, hknown, hmarker⟩
    have hcomponents := hbelow.unique hdirs
    obtain ⟨parent, hparent, hfront⟩ := Path.components_parent? hcomponents
    rw [isRouteFile, Bool.and_eq_true_iff, hbelow.ofPath?_eq (by simp [hcomponents]), hparent,
      Option.any_some, List.any_eq_true]
    exact ⟨hscript, marker, mem_names_iff.mpr (hfront ▸ hmarker),
      List.contains_iff_mem.mpr hknown⟩

theorem names_of_components {relative parent : Path} {name : String}
    (hcomponents : relative.components = parent.components ++ [.name name]) :
    names relative = names parent ++ [name] := by
  rw [names, names, hcomponents, List.filterMap_append]
  rfl

/-- A script whose path stands for a sensitive route lies in a directory of
routes. -/
theorem inRouteDirectory_of_routeOfPath? {hit : SensitiveRoute}
    (hscript : (Script.Language.ofPath? file).isSome)
    (hhit : routeOfPath? ((Path.relativeTo? root file).getD file) = some hit) :
    InRouteDirectory root file := by
  have hbelow : Below root file ((Path.relativeTo? root file).getD file).components :=
    below_iff.mpr rfl
  generalize (Path.relativeTo? root file).getD file = relative at hbelow hhit
  rw [routeOfPath?_eq] at hhit
  obtain ⟨segments, hsegments, -⟩ := Option.bind_eq_some_iff.mp hhit
  have hsome : relative.components ≠ [] := by
    intro hnone
    rw [segmentsOf?, names, hnone] at hsegments
    cases hsegments
  have hscript' := hscript
  rw [← hbelow.ofPath?_eq hsome] at hscript'
  obtain ⟨front, name, hcomponents⟩ := Script.Language.exists_name_of_ofPath? hscript'
  obtain ⟨parent, -, hfront⟩ := Path.components_parent? hcomponents
  have hnames : names relative = names parent ++ [name] :=
    names_of_components (hfront ▸ hcomponents)
  rw [segmentsOf?_eq hnames] at hsegments
  -- The segments are those below a marker among the directories, so there is one.
  obtain ⟨below, hmarked, -⟩ := Option.bind_eq_some_iff.mp hsegments
  obtain ⟨marker, hmarker, hknown⟩ : ∃ marker ∈ names parent, marker ∈ routeDirectories := by
    by_contra hnone
    rw [belowRoutes?_eq_none fun d hd hknown => hnone ⟨d, hd, hknown⟩] at hmarked
    cases hmarked
  rw [mem_names_iff, hfront] at hmarker
  rw [hcomponents] at hbelow
  exact ⟨hscript, front, name, marker, hbelow, hknown, hmarker⟩

end Places

section Findings

variable {ctx : FileContext} {f : Finding}

def IsByPlace (ctx : FileContext) (f : Finding) : Prop :=
  f ∈ detect ctx ∧ ∃ hit, routeOfPath? ctx.relativePath = some hit ∧
    f = report (.ofFile ctx.path) hit

def IsByCall (ctx : FileContext) (f : Finding) : Prop :=
  f ∈ detect ctx ∧ ∃ s, Shows ctx s ∧ s.registered = true ∧
    f = report (.atLine ctx.path s.line) s.hit

theorem isScript_of_mem_detect (hf : f ∈ detect ctx) : ctx.isScript = true := by
  unfold detect at hf
  split at hf
  · cases hf
  · rename_i hchecked
    simp only [Bool.or_eq_true, not_or, Bool.not_eq_true', Bool.not_eq_false] at hchecked
    exact hchecked.2

theorem IsByPlace.inRouteDirectory {root : Path} (hroot : ctx.root = some root)
    (hf : IsByPlace ctx f) : InRouteDirectory root ctx.path := by
  obtain ⟨hf, hit, hhit, -⟩ := hf
  have hrelative : ctx.relativePath = (Path.relativeTo? root ctx.path).getD ctx.path := by
    rw [FileContext.relativePath, hroot, Option.bind_some]
  exact inRouteDirectory_of_routeOfPath? (isScript_of_mem_detect hf) (hrelative ▸ hhit)

theorem IsByCall.exists_match (hf : IsByCall ctx f) :
    ∃ m, m ∈ routePattern.matchesIn ctx.content.toList := by
  obtain ⟨-, s, hshows, hregistered, -⟩ := hf
  obtain ⟨m, hm, -⟩ := hshows.captures
  rw [patternOf, if_pos hregistered] at hm
  exact ⟨m, hm⟩

end Findings

end Endpoint

namespace RateLimit

open Endpoint (InRouteDirectory IsByPlace IsByCall)

structure DefinesRoute (read : Path → Option String) (file : Path) : Prop where
  script : (Script.Language.ofPath? file).isSome
  content : ∃ content, read file = some content ∧
    ((∃ m, m ∈ Endpoint.routePattern.matchesIn content.toList) ∨
      ∃ m, m ∈ handlerPattern.matchesIn content.toList)

def IsFirstOf (property : Path → Prop) (files : List Path) (file : Path) : Prop :=
  ∃ before after, files = before ++ file :: after ∧ property file ∧ ∀ f ∈ before, ¬property f

section Files

variable {root file : Path} {read : Path → Option String} {files : List Path}

theorem isDefinition_iff : isDefinition read file = true ↔ DefinesRoute read file := by
  have hdefines : ∀ content, definesRoute content = true ↔
      (∃ m, m ∈ Endpoint.routePattern.matchesIn content.toList) ∨
        ∃ m, m ∈ handlerPattern.matchesIn content.toList := by
    intro content
    rw [definesRoute, Bool.or_eq_true, Pattern.occurs_iff, Endpoint.registersRoute,
      Pattern.occurs_iff, or_comm]
  rw [isDefinition, Bool.and_eq_true_iff, Option.any_eq_true]
  simp only [hdefines]
  exact ⟨fun ⟨hscript, hcontent⟩ => ⟨hscript, hcontent⟩,
    fun ⟨hscript, hcontent⟩ => ⟨hscript, hcontent⟩⟩

section First

variable {test : Path → Bool} {property : Path → Prop} (htest : ∀ f, test f = true ↔ property f)
include htest

theorem isFirstOf_of_find? (hfind : files.find? test = some file) :
    IsFirstOf property files file := by
  obtain ⟨hfile, before, after, hfiles, hbefore⟩ := List.find?_eq_some_iff_append.mp hfind
  refine ⟨before, after, hfiles, (htest file).mp hfile, fun f hf hproperty => ?_⟩
  have hfalse := hbefore f hf
  rw [(htest f).mpr hproperty] at hfalse
  cases hfalse

theorem find?_eq_none_iff_not : files.find? test = none ↔ ∀ f ∈ files, ¬property f := by
  rw [List.find?_eq_none]
  exact forall₂_congr fun f _ => not_congr (htest f)

theorem exists_find? (hsome : ∃ f ∈ files, property f) : ∃ file, files.find? test = some file := by
  obtain ⟨f, hf, hproperty⟩ := hsome
  apply Option.ne_none_iff_exists'.mp
  intro hnone
  exact (find?_eq_none_iff_not htest).mp hnone f hf hproperty

end First

theorem evidence?_eq_none_iff :
    evidence? root read files = none ↔
      ∀ f ∈ files, ¬InRouteDirectory root f ∧ ¬DefinesRoute read f := by
  have hplace : ∀ f, _ ↔ InRouteDirectory root f := fun f => Endpoint.isRouteFile_iff
  have htext : ∀ f, _ ↔ DefinesRoute read f := fun f => isDefinition_iff
  unfold evidence?
  split
  · rename_i file hfind
    refine iff_of_false (by simp) fun hnone => ?_
    obtain ⟨before, after, rfl, hfile, -⟩ := isFirstOf_of_find? hplace hfind
    exact (hnone file (by simp)).1 hfile
  · rename_i hfind
    rw [Option.map_eq_none_iff, find?_eq_none_iff_not htext]
    exact forall₂_congr fun f hf =>
      (and_iff_right ((find?_eq_none_iff_not hplace).mp hfind f hf)).symm

theorem evidence?_of_directory (hsome : ∃ f ∈ files, InRouteDirectory root f) :
    ∃ file, IsFirstOf (InRouteDirectory root) files file ∧
      ∀ read, evidence? root read files = some (.directory file) := by
  have hplace : ∀ f, _ ↔ InRouteDirectory root f := fun f => Endpoint.isRouteFile_iff
  obtain ⟨file, hfind⟩ := exists_find? hplace hsome
  refine ⟨file, isFirstOf_of_find? hplace hfind, fun read => ?_⟩
  rw [evidence?, hfind]

theorem evidence?_of_definition (hnone : ∀ f ∈ files, ¬InRouteDirectory root f)
    (hsome : ∃ f ∈ files, DefinesRoute read f) :
    ∃ file, IsFirstOf (DefinesRoute read) files file ∧
      evidence? root read files = some (.definition file) := by
  have hplace : ∀ f, _ ↔ InRouteDirectory root f := fun f => Endpoint.isRouteFile_iff
  have htext : ∀ f, _ ↔ DefinesRoute read f := fun f => isDefinition_iff
  obtain ⟨file, hfind⟩ := exists_find? htext hsome
  refine ⟨file, isFirstOf_of_find? htext hfind, ?_⟩
  rw [evidence?, (find?_eq_none_iff_not hplace).mpr hnone, hfind]
  rfl

end Files

theorem isLimited_eq_false {dependencies : List Dependency}
    (hfree : ∀ d ∈ dependencies, ∀ name ∈ packages,
      ¬eqIgnoreCase d.name.toList name.toList = true) :
    isLimited dependencies = false := by
  rw [isLimited, Technologies.declares, Bool.eq_false_iff, Ne, List.any_eq_true]
  rintro ⟨d, hd, hany⟩
  obtain ⟨name, hname, hsame⟩ := List.any_eq_true.mp hany
  exact hfree d hd name hname hsame

/-- The checks for sensitive routes and for rate limits agree on what a route
is. In a project without a package for rate limits there is a finding on them
whenever a file has one for the route that its place stands for or that it
registers. The finding is at the first file in a directory of routes, whatever
the files contain, or else at the first script that defines a route, and there
is none exactly when there is no such file. -/
theorem rate_limit_follows_routes (root : Path) (files : List Path)
    (dependencies : List Dependency)
    (hfree : ∀ d ∈ dependencies, ∀ name ∈ packages,
      ¬eqIgnoreCase d.name.toList name.toList = true) :
    (∀ (read : Path → Option String) (ctx : FileContext) (f : Finding), ctx.path ∈ files →
      ctx.root = some root →
      (IsByPlace ctx f ∨ IsByCall ctx f ∧ read ctx.path = some ctx.content) →
      ∃ g, assess? root read files dependencies = some g) ∧
    ((∃ file ∈ files, InRouteDirectory root file) →
      ∃ file, IsFirstOf (InRouteDirectory root) files file ∧
        ∀ read, ∃ g, assess? root read files dependencies = some g ∧
          g.location = .ofFile file) ∧
    (∀ read, (∀ file ∈ files, ¬InRouteDirectory root file) →
      (∃ file ∈ files, DefinesRoute read file) →
      ∃ file, IsFirstOf (DefinesRoute read) files file ∧
        ∃ g, assess? root read files dependencies = some g ∧ g.location = .ofFile file) ∧
    ∀ read, assess? root read files dependencies = none ↔
      ∀ file ∈ files, ¬InRouteDirectory root file ∧ ¬DefinesRoute read file := by
  have hassess : ∀ read, assess? root read files dependencies =
      (evidence? root read files).map fun e => report e.path := by
    intro read
    rw [assess?, isLimited_eq_false hfree]
    rfl
  have hnone : ∀ read, assess? root read files dependencies = none ↔
      ∀ file ∈ files, ¬InRouteDirectory root file ∧ ¬DefinesRoute read file := by
    intro read
    rw [hassess, Option.map_eq_none_iff, evidence?_eq_none_iff]
  refine ⟨?_, ?_, ?_, hnone⟩
  · intro read ctx f hpath hroot hfinding
    apply Option.ne_none_iff_exists'.mp
    intro hempty
    obtain ⟨hplace, htext⟩ := (hnone read).mp hempty ctx.path hpath
    rcases hfinding with hf | ⟨hf, hcontent⟩
    · exact hplace (hf.inRouteDirectory hroot)
    · exact htext ⟨Endpoint.isScript_of_mem_detect hf.1, _, hcontent, .inl hf.exists_match⟩
  · intro hsome
    obtain ⟨file, hfirst, hevidence⟩ := evidence?_of_directory hsome
    refine ⟨file, hfirst, fun read => ⟨report file, ?_, rfl⟩⟩
    rw [hassess, hevidence read]
    rfl
  · intro read hplaces hsome
    obtain ⟨file, hfirst, hevidence⟩ := evidence?_of_definition hplaces hsome
    refine ⟨file, hfirst, report file, ?_, rfl⟩
    rw [hassess, hevidence]
    rfl

def shopServer : FileContext where
  path := ⟨"/srv/shop/server.js"⟩
  content := "app.get('/admin', list);\n"
  technologies := { hasBackend := true }
  root := some ⟨"/srv/shop"⟩

def shopFiles : List Path := [shopServer.path, ⟨"/srv/shop/app/api/health/route.ts"⟩]

def shopDependencies : List Dependency :=
  [⟨"express", "4.19.2", .npm, ⟨"/srv/shop/package.json"⟩, false, false⟩]

theorem shopServer_isByCall :
    IsByCall shopServer
      (Endpoint.report (.atLine shopServer.path 1) ⟨"admin", .medium, "/admin"⟩) := by
  refine ⟨by decide +kernel, ⟨true, 0, 1, ⟨"admin", .medium, "/admin"⟩⟩, ?_, rfl, rfl⟩
  rw [← Endpoint.mem_sightings_iff]
  decide +kernel

theorem shop_is_reported :
    (∀ d ∈ shopDependencies, ∀ name ∈ packages,
      ¬eqIgnoreCase d.name.toList name.toList = true) ∧
    (∃ g, assess? ⟨"/srv/shop"⟩ (fun _ => some shopServer.content) shopFiles
      shopDependencies = some g) ∧
    ∃ file, IsFirstOf (InRouteDirectory ⟨"/srv/shop"⟩) shopFiles file ∧
      ∀ read, ∃ g, assess? ⟨"/srv/shop"⟩ read shopFiles shopDependencies = some g ∧
        g.location = .ofFile file := by
  have hfree : ∀ d ∈ shopDependencies, ∀ name ∈ packages,
      ¬eqIgnoreCase d.name.toList name.toList = true := by decide +kernel
  obtain ⟨hfinding, hplace, -⟩ :=
    rate_limit_follows_routes ⟨"/srv/shop"⟩ shopFiles shopDependencies hfree
  refine ⟨hfree, ?_, ?_⟩
  · exact hfinding _ shopServer _ (by simp [shopFiles]) rfl (.inr ⟨shopServer_isByCall, rfl⟩)
  · refine hplace ⟨⟨"/srv/shop/app/api/health/route.ts"⟩, by simp [shopFiles], ?_⟩
    rw [← Endpoint.isRouteFile_iff]
    decide +kernel

end RateLimit

end WebAudit
