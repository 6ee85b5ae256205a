import Mathlib.Data.List.Basic
import WebAudit.Detector.Endpoint
import WebAudit.Proofs.PathComponents

/-!
Routes that the place of a file stands for. Only the names below the last
directory of routes count, and of them only the last static one decides whether
the route is sensitive. So parameters and groups may be put between the
directory of routes and the file without a change of the verdict, and a file
stands for the same route as the index file of a directory of its name.
-/

namespace WebAudit.Endpoint

/-- A segment that is a parameter of a route or left to the framework. -/
def IsDynamic (segment : String) : Prop :=
  ∃ mark ∈ ['[', ':', '$', '_'], ∃ rest, segment.toList = mark :: rest

def IsGroup (segment : String) : Prop := ∃ inner, segment.toList = '(' :: (inner ++ [')'])

theorem isStatic_eq_false_iff (segment : String) :
    isStatic segment = false ↔ IsDynamic segment ∨ IsGroup segment := by
  unfold isStatic IsDynamic IsGroup
  cases segment.toList with
  | nil => simp
  | cons c cs =>
      have hdynamic : (c == '[' || c == ':' || c == '$' || c == '_') = true ↔
          ∃ mark ∈ ['[', ':', '$', '_'], ∃ rest, c :: cs = mark :: rest := by
        simp [or_assoc]
      have hgroup : (c == '(' && (c :: cs).getLast? == some ')') = true ↔
          ∃ inner, c :: cs = '(' :: (inner ++ [')']) := by
        rw [Bool.and_eq_true_iff, beq_iff_eq, beq_iff_eq]
        constructor
        · rintro ⟨rfl, hlast⟩
          obtain ⟨front, hfront⟩ := List.getLast?_eq_some_iff.mp hlast
          cases front with
          | nil => simp at hfront
          | cons d inner => exact ⟨inner, by simp_all⟩
        · rintro ⟨inner, hgroup⟩
          obtain ⟨rfl, rfl⟩ := List.cons.inj hgroup
          exact ⟨rfl, by rw [← List.cons_append, List.getLast?_concat]⟩
      rw [← hdynamic, ← hgroup, Bool.and_eq_false_iff, Bool.not_eq_false', Bool.not_eq_false']

/-- Directories with parameters and groups put in anywhere. -/
inductive Padded : List String → List String → Prop
  | nil : Padded [] []
  | keep (d : String) {below below' : List String} (hrest : Padded below below') :
      Padded (d :: below) (d :: below')
  | insert (d : String) {below below' : List String} (hd : IsDynamic d ∨ IsGroup d)
      (hrest : Padded below below') : Padded below (d :: below')

theorem Padded.filter_isStatic {below below' : List String} (hpadded : Padded below below') :
    below'.filter isStatic = below.filter isStatic := by
  induction hpadded with
  | nil => rfl
  | keep d hrest ih => rw [List.filter_cons, List.filter_cons, ih]
  | insert d hd hrest ih =>
      have hstatic : ¬isStatic d = true := by
        rw [(isStatic_eq_false_iff d).mpr hd]
        exact Bool.false_ne_true
      rw [List.filter_cons_of_neg hstatic, ih]

theorem find?_reverse_isStatic (segments : List String) :
    segments.reverse.find? isStatic = (segments.filter isStatic).getLast? := by
  rw [← List.head?_filter, List.filter_reverse, List.head?_reverse]

/-- A parameter or a group is no directory of routes. -/
theorem not_mem_routeDirectories {d : String} (hd : IsDynamic d ∨ IsGroup d) :
    d ∉ routeDirectories := by
  have hstatic : ∀ marker ∈ routeDirectories, isStatic marker = true := by decide
  intro hmember
  rw [← isStatic_eq_false_iff, hstatic d hmember] at hd
  cases hd

theorem Padded.not_mem_routeDirectories {below below' : List String}
    (hpadded : Padded below below') (hbelow : ∀ d ∈ below, d ∉ routeDirectories) :
    ∀ d ∈ below', d ∉ routeDirectories := by
  induction hpadded with
  | nil => exact hbelow
  | keep d hrest ih =>
      rw [List.forall_mem_cons] at hbelow ⊢
      exact ⟨hbelow.1, ih hbelow.2⟩
  | insert d hd hrest ih =>
      rw [List.forall_mem_cons]
      exact ⟨Endpoint.not_mem_routeDirectories hd, ih hbelow⟩

theorem belowRoutes?_eq_none {dirs : List String} (hdirs : ∀ d ∈ dirs, d ∉ routeDirectories) :
    belowRoutes? dirs = none := by
  induction dirs with
  | nil => rfl
  | cons d rest ih =>
      rw [List.forall_mem_cons] at hdirs
      simp [belowRoutes?, ih hdirs.2, hdirs.1]

/-- The names after the last directory of routes. -/
theorem belowRoutes?_marker (front : List String) {marker : String} {below : List String}
    (hmarker : marker ∈ routeDirectories) (hbelow : ∀ d ∈ below, d ∉ routeDirectories) :
    belowRoutes? (front ++ marker :: below) = some below := by
  induction front with
  | nil => simp [belowRoutes?, belowRoutes?_eq_none hbelow, hmarker]
  | cons d rest ih => rw [List.cons_append, belowRoutes?, ih]

theorem belowRoutes?_append {s : String} (hs : s ∉ routeDirectories) (dirs : List String) :
    belowRoutes? (dirs ++ [s]) = (belowRoutes? dirs).map (· ++ [s]) := by
  induction dirs with
  | nil => simp [belowRoutes?, hs]
  | cons d rest ih =>
      rw [List.cons_append, belowRoutes?, belowRoutes?, ih]
      cases belowRoutes? rest with
      | some below => rfl
      | none =>
          dsimp only [Option.map_none]
          split <;> rfl

/-- The segments of a route: the directories below the directory of routes, and
the stem of the file unless it stands for its directory. -/
def withStem (below : List String) (stem : String) : List String :=
  if routeStems.contains stem then below else below ++ [stem]

theorem withStem_of_not_mem {stem : String} (hstem : stem ∉ routeStems) (below : List String) :
    withStem below stem = below ++ [stem] := by
  apply if_neg
  rwa [List.contains_iff_mem]

theorem segmentsOf?_eq {p : Path} {dirs : List String} {file : String}
    (hnames : names p = dirs ++ [file]) :
    segmentsOf? p = (belowRoutes? dirs).bind fun below =>
      (Path.fileStem? ⟨file⟩).map (withStem below) := by
  unfold segmentsOf?
  rw [hnames, List.reverse_append, List.reverse_singleton, List.singleton_append]
  dsimp only
  rw [List.reverse_reverse]
  cases belowRoutes? dirs with
  | none => rfl
  | some below => cases Path.fileStem? ⟨file⟩ <;> rfl

/-- What is said of a route by its last static segment. -/
def verdict? (segments : List String) : Option (String × Severity) :=
  (segments.filter isStatic).getLast?.bind fun last => keywordOf? last.toList

theorem routeOfPath?_eq (p : Path) :
    routeOfPath? p = (segmentsOf? p).bind fun segments =>
      (verdict? segments).map fun found =>
        ⟨found.1, found.2, "/" ++ Text.join "/" segments⟩ := by
  unfold routeOfPath? verdict?
  cases segmentsOf? p with
  | none => rfl
  | some segments =>
      dsimp only [Option.bind_some]
      rw [find?_reverse_isStatic]
      cases (segments.filter isStatic).getLast? <;> rfl

theorem names_eq {p : Path} {ns : List String} (hp : p.components = ns.map .name) :
    names p = ns := by
  rw [names, hp, List.filterMap_map]
  exact List.filterMap_some

theorem names_join (d : Path) {name : String} (hname : Path.isName name) :
    names (d.join name) = names d ++ [name] := by
  rw [names, Path.components_join d hname, List.filterMap_append]
  rfl

theorem components_of_isName {name : String} (hname : Path.isName name) :
    (Path.mk name).components = [.name name] := by
  obtain ⟨-, -, -, hslash⟩ := (Path.isName_iff name).mp hname
  rw [Path.components_eq, Path.pieces, Text.splitOn_eq, List.splitOn_eq_singleton hslash]
  exact Path.componentsOf_append_name [] hname

theorem isName_dotted {stem ext : String} (hstem : Path.isName stem) (hext : ext ≠ "")
    (hslash : '/' ∉ ext.toList) : Path.isName (stem ++ "." ++ ext) := by
  obtain ⟨hempty, -, -, hslash'⟩ := (Path.isName_iff stem).mp hstem
  have hlong : 3 ≤ (stem ++ "." ++ ext).toList.length := by
    have hpositive : ∀ text : String, text ≠ "" → 0 < text.toList.length := by
      intro text hne
      apply List.length_pos_iff.mpr
      exact fun hnil => hne (String.toList_inj.mp hnil)
    have hstem := hpositive stem hempty
    have hext := hpositive ext hext
    rw [String.toList_append, String.toList_append, List.length_append, List.length_append]
    change 3 ≤ stem.toList.length + 1 + ext.toList.length
    omega
  have hne : ∀ short : String, short.toList.length < 3 → stem ++ "." ++ ext ≠ short := by
    rintro short hshort rfl
    omega
  rw [Path.isName_iff]
  refine ⟨hne "" (by decide), hne "." (by decide), hne ".." (by decide), ?_⟩
  simp [hslash, hslash']

theorem fileStem?_dotted {stem ext : String} (hstem : Path.isName stem) (hext : ext ≠ "")
    (hslash : '/' ∉ ext.toList) (hdot : '.' ∉ ext.toList) :
    Path.fileStem? ⟨stem ++ "." ++ ext⟩ = some stem := by
  obtain ⟨hempty, -⟩ := (Path.isName_iff stem).mp hstem
  rw [Path.fileStem?, Path.fileName?, components_of_isName (isName_dotted hstem hext hslash)]
  simp [Path.splitName_dotted hempty hdot]

/-- The extension of a script is a plain word. -/
theorem plain_of_ofExtension? {ext : String} (hscript : (Script.Language.ofExtension? ext).isSome) :
    ext ≠ "" ∧ '/' ∉ ext.toList ∧ '.' ∉ ext.toList := by
  have hknown : ext.toLower ∈ ["js", "jsx", "mjs", "cjs", "ts", "mts", "cts", "tsx"] := by
    unfold Script.Language.ofExtension? at hscript
    split at hscript
    all_goals simp_all
  have hplain : ∀ word ∈ ["js", "jsx", "mjs", "cjs", "ts", "mts", "cts", "tsx"],
      word.toList ≠ [] ∧ (word.toList.all fun c => c != '/' && c != '.') = true := by
    decide
  obtain ⟨hempty, hmarks⟩ := hplain _ hknown
  have hmap : ext.toLower.toList = ext.toList.map Char.toLower := String.toList_map
  rw [hmap] at hempty hmarks
  have hlower : ∀ c ∈ ext.toList, (c.toLower != '/' && c.toLower != '.') = true :=
    fun c hc => List.all_eq_true.mp hmarks c.toLower (List.mem_map_of_mem hc)
  refine ⟨?_, ?_, ?_⟩
  · rintro rfl
    exact hempty rfl
  · exact fun hc => absurd (hlower '/' hc) (by decide)
  · exact fun hc => absurd (hlower '.' hc) (by decide)

/-- Whether a file stands for a sensitive route is told from the segments that
are neither parameters nor groups. -/
theorem routeOfPath?_padded {p p' : Path} {front below below' : List String}
    {marker file : String} (hmarker : marker ∈ routeDirectories)
    (hbelow : ∀ d ∈ below, d ∉ routeDirectories) (hpadded : Padded below below')
    (hp : p.components = (front ++ marker :: below ++ [file]).map .name)
    (hp' : p'.components = (front ++ marker :: below' ++ [file]).map .name) :
    (routeOfPath? p').map (fun r => (r.keyword, r.severity)) =
      (routeOfPath? p).map (fun r => (r.keyword, r.severity)) := by
  have hverdict : ∀ q, (routeOfPath? q).map (fun r => (r.keyword, r.severity)) =
      (segmentsOf? q).bind verdict? := by
    intro q
    rw [routeOfPath?_eq]
    cases segmentsOf? q with
    | none => rfl
    | some segments =>
        rw [Option.bind_some, Option.bind_some, Option.map_map]
        exact congrFun Option.map_id (verdict? segments)
  have hstem : ∀ stem, verdict? (withStem below' stem) = verdict? (withStem below stem) := by
    intro stem
    unfold verdict? withStem
    split
    · rw [hpadded.filter_isStatic]
    · rw [List.filter_append, List.filter_append, hpadded.filter_isStatic]
  rw [hverdict, hverdict, segmentsOf?_eq (names_eq hp), segmentsOf?_eq (names_eq hp'),
    belowRoutes?_marker front hmarker hbelow,
    belowRoutes?_marker front hmarker (hpadded.not_mem_routeDirectories hbelow)]
  cases Path.fileStem? ⟨file⟩ with
  | none => rfl
  | some stem => exact hstem stem

theorem routeOfPath?_index (d : Path) {stem ext : String} (hname : Path.isName stem)
    (hstem : stem ∉ routeStems) (hmarker : stem ∉ routeDirectories)
    (hscript : (Script.Language.ofExtension? ext).isSome) :
    routeOfPath? (d.join (stem ++ "." ++ ext)) =
      routeOfPath? ((d.join stem).join ("index" ++ "." ++ ext)) := by
  obtain ⟨hempty, hslash, hdot⟩ := plain_of_ofExtension? hscript
  have hindex : Path.isName "index" := by decide
  have hfile : names (d.join (stem ++ "." ++ ext)) = names d ++ [stem ++ "." ++ ext] :=
    names_join d (isName_dotted hname hempty hslash)
  have hindexFile : names ((d.join stem).join ("index" ++ "." ++ ext)) =
      names d ++ [stem] ++ ["index" ++ "." ++ ext] := by
    rw [names_join _ (isName_dotted hindex hempty hslash), names_join d hname]
  have hsegments : segmentsOf? (d.join (stem ++ "." ++ ext)) =
      segmentsOf? ((d.join stem).join ("index" ++ "." ++ ext)) := by
    rw [segmentsOf?_eq hfile, segmentsOf?_eq hindexFile, belowRoutes?_append hmarker,
      fileStem?_dotted hname hempty hslash hdot, fileStem?_dotted hindex hempty hslash hdot]
    cases belowRoutes? (names d) with
    | none => rfl
    | some below => exact congrArg some (withStem_of_not_mem hstem below)
  rw [routeOfPath?_eq, routeOfPath?_eq, hsegments]

/-- Parameters and groups between the last directory of routes and the file
change neither whether a file stands for a sensitive route nor how sensitive it
is, and a file stands for the same route as the index file of the directory
with its stem. -/
theorem file_routes_equivalent :
    (∀ (p p' : Path) (front below below' : List String) (marker file : String),
      marker ∈ routeDirectories → (∀ d ∈ below, d ∉ routeDirectories) → Padded below below' →
      p.components = (front ++ marker :: below ++ [file]).map .name →
      p'.components = (front ++ marker :: below' ++ [file]).map .name →
      (routeOfPath? p').isSome = (routeOfPath? p).isSome ∧
      (routeOfPath? p').map (fun r => (r.keyword, r.severity)) =
        (routeOfPath? p).map (fun r => (r.keyword, r.severity))) ∧
    ∀ (d : Path) (stem ext : String), Path.isName stem → stem ∉ routeStems →
      stem ∉ routeDirectories → (Script.Language.ofExtension? ext).isSome →
      routeOfPath? (d.join (stem ++ "." ++ ext)) =
        routeOfPath? ((d.join stem).join ("index" ++ "." ++ ext)) := by
  refine ⟨?_, fun d stem ext => routeOfPath?_index d⟩
  intro p p' front below below' marker file hmarker hbelow hpadded hp hp'
  have hsame := routeOfPath?_padded hmarker hbelow hpadded hp hp'
  refine ⟨?_, hsame⟩
  simpa using congrArg Option.isSome hsame

/-- A group and a parameter leave a route for debugging what it is, and so does
the way from `config.js` to `config/index.js`. -/
theorem debug_and_config_routes :
    (routeOfPath? ⟨"app/api/debug/route.ts"⟩ = some ⟨"debug", .medium, "/debug"⟩ ∧
      (routeOfPath? ⟨"app/api/(internal)/debug/[id]/route.ts"⟩).map
          (fun r => (r.keyword, r.severity)) =
        (routeOfPath? ⟨"app/api/debug/route.ts"⟩).map (fun r => (r.keyword, r.severity))) ∧
    routeOfPath? (Path.join ⟨"src/routes"⟩ ("config" ++ "." ++ "js")) =
      routeOfPath? ((Path.join ⟨"src/routes"⟩ "config").join ("index" ++ "." ++ "js")) := by
  have hpadded : Padded ["debug"] ["(internal)", "debug", "[id]"] :=
    .insert _ (.inr ⟨"internal".toList, rfl⟩)
      (.keep _ (.insert _ (.inl ⟨'[', by simp, "id]".toList, rfl⟩) .nil))
  refine ⟨⟨by decide +kernel, ?_⟩, ?_⟩
  · exact (file_routes_equivalent.1 _ _ ["app"] _ _ "api" "route.ts" (by decide) (by decide)
      hpadded (by decide +kernel) (by decide +kernel)).2
  · exact file_routes_equivalent.2 _ "config" "js" (by decide) (by decide) (by decide)
      (by decide +kernel)

end WebAudit.Endpoint
