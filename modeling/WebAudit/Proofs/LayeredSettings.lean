import Mathlib.Data.List.Induction
import WebAudit.Command.Machine
import WebAudit.Proofs.SettingLeaves
import WebAudit.Proofs.TomlTables

/-!
Layers of settings, leaf by leaf. Where every layer gives the parts as maps, the
tree of all layers has at a leaf what the layers give there, each laid over those
before it. No leaf is read from a map, so what counts at a leaf is what the
highest layer gives that gives anything, and a value below one that is no map
does not show, be it in the settings or in an error about them.
-/

namespace WebAudit

open Reading (Leaf HasTable HasTables tableAt partSlots)

namespace Setting

theorem get?_append (p q : SettingPath) (v : Setting) :
    v.get? (p ++ q) = (v.get? p).bind (get? q) := by
  induction p generalizing v with
  | nil => rfl
  | cons step rest ih =>
      cases step with
      | name n =>
          cases v with
          | map entries =>
              rw [List.cons_append, get?, get?]
              cases entries.lookup n with
              | none => rfl
              | some w => exact ih w
          | _ => rfl
      | index i =>
          cases v with
          | list items =>
              rw [List.cons_append, get?, get?]
              cases items[i]? with
              | none => rfl
              | some w => exact ih w
          | _ => rfl

theorem isSome_get?_name (entries : List (String × Setting)) (n : String) :
    ((Setting.map entries).get? [.name n]).isSome ↔ n ∈ entries.map Prod.fst := by
  rw [← exists_lookup_iff_mem, get?, Option.isSome_iff_exists]
  cases entries.lookup n <;> simp [get?]

/-- Paths that do not go through a map that is in a map. -/
def Shallow (p : SettingPath) (v : Setting) : Prop :=
  p = [] ∨ (∃ n, p = [.name n]) ∨ v.isMap = false

/-- What is found in a value under which another one lies is found in one of the
two, if it is not too far down. Below a value that is no map nothing is found. -/
theorem isSome_get?_overlaid {old : Option Setting} {v w : Setting} {p : SettingPath}
    (hjoined : overlaid old (some v) = some w) (hshallow : w.Shallow p)
    (hget : (w.get? p).isSome) :
    (v.get? p).isSome ∨
      v.isMap = true ∧ ∃ o, old = some o ∧ o.Shallow p ∧ (o.get? p).isSome := by
  cases hmap : v.isMap with
  | false =>
      rw [overlaid_of_not_map _ hmap] at hjoined
      exact Or.inl (Option.some.inj hjoined ▸ hget)
  | true =>
      obtain ⟨m, rfl⟩ := (isMap_iff v).mp hmap
      cases old with
      | none => exact Or.inl (Option.some.inj hjoined ▸ hget)
      | some o =>
          obtain rfl : overlay o (.map m) = w := Option.some.inj hjoined
          cases o with
          | map b =>
              rw [overlay] at hshallow hget
              rcases hshallow with rfl | ⟨n, rfl⟩ | hleaf
              · exact Or.inl rfl
              · rw [isSome_get?_name, mem_names_overlayEntries] at hget
                rcases hget with hb | hm
                · exact Or.inr ⟨rfl, _, rfl, Or.inr (Or.inl ⟨n, rfl⟩),
                    (isSome_get?_name b n).mpr hb⟩
                · exact Or.inl ((isSome_get?_name m n).mpr hm)
              · cases hleaf
          | _ => exact Or.inl (by simpa only [overlay] using hget)

end Setting

/-- An error about a leaf is not too far down in what was read. -/
theorem Reading.ReadsLeaf.shallow {β : Type} {read : Setting → Reading β}
    (hreads : Reading.ReadsLeaf read) {v : Setting} {fault : SettingFault}
    (hread : read v = .error fault) : v.Shallow fault.path := by
  cases hmap : v.isMap with
  | false => exact Or.inr (Or.inr hmap)
  | true =>
      obtain ⟨m, rfl⟩ := (Setting.isMap_iff v).mp hmap
      obtain ⟨fault', hfault, hpath⟩ := hreads.refusesMaps m
      obtain rfl := Except.error.inj (hread.symm.trans hfault)
      rcases hpath with hpath | ⟨n, -, hpath⟩
      · exact Or.inl hpath
      · exact Or.inr (Or.inl ⟨n, hpath⟩)

section Overlaying

open Setting

variable {base entries : List (String × Setting)}

theorem HasTable.overlayEntries {part : String} (hbase : HasTable part base)
    (hentries : HasTable part entries) (hnodup : (entries.map Prod.fst).Nodup) :
    HasTable part (overlayEntries base entries) := by
  intro v hv
  rw [lookup_overlayEntries base hnodup] at hv
  cases hlookup : entries.lookup part with
  | none =>
      rw [hlookup, overlaid_none_right] at hv
      exact hbase v hv
  | some new =>
      have hmap := hentries new hlookup
      rw [hlookup] at hv
      cases hold : base.lookup part with
      | none =>
          rw [hold] at hv
          obtain rfl := Option.some.inj hv
          exact hmap
      | some old =>
          rw [hold] at hv
          obtain rfl := Option.some.inj hv
          rw [isMap_overlay, hmap]

/-- Parts are laid over each other entry by entry. -/
theorem lookup_tableAt_overlayEntries {part : String} (hbase : HasTable part base)
    (hentries : HasTable part entries) (hdistinct : Distinct entries) (n : String) :
    (tableAt part (overlayEntries base entries)).lookup n =
      overlaid ((tableAt part base).lookup n) ((tableAt part entries).lookup n) := by
  unfold tableAt
  rw [lookup_overlayEntries base hdistinct.names]
  cases hlookup : entries.lookup part with
  | none => rw [overlaid_none_right, List.lookup_nil, overlaid_none_right]
  | some new =>
      obtain ⟨m, rfl⟩ := (isMap_iff new).mp (hentries new hlookup)
      cases hold : base.lookup part with
      | none => rw [overlaid_none_left, List.lookup_nil, overlaid_none_left]
      | some old =>
          obtain ⟨b, rfl⟩ := (isMap_iff old).mp (hbase old hold)
          have hinner := hdistinct.inner part m hlookup
          simp only [overlaid, overlay]
          exact lookup_overlayEntries b hinner n

end Overlaying

deriving instance DecidableEq for Layer

namespace Layer

open Setting

/-- What a layer gives at a path. -/
def get? (layer : Layer) (path : SettingPath) : Option Setting :=
  (Setting.map layer.entries).get? path

/-- What the highest layer gives at a path that gives anything there. -/
def top? (layers : List Layer) (path : SettingPath) : Option Setting :=
  layers.reverse.findSome? (·.get? path)

/-- A value with what layers give at a path laid over it. -/
def joinedOn (start : Option Setting) (layers : List Layer) (path : SettingPath) :
    Option Setting :=
  layers.foldl (fun found layer => overlaid found (layer.get? path)) start

/-- Whether one of some layers replaces what is at a path as a whole. -/
def Replaced (layers : List Layer) (path : SettingPath) : Prop :=
  ∃ layer ∈ layers, ∃ v, layer.get? path = some v ∧ v.isMap = false

instance (layers : List Layer) (path : SettingPath) : Decidable (Replaced layers path) :=
  decidable_of_iff (∃ layer ∈ layers, (layer.get? path).any (!·.isMap) = true) <| by
    simp [Replaced, Option.any_eq_true]

def IsDistinct (layer : Layer) : Prop := Distinct layer.entries

theorem joinedOn_concat (start : Option Setting) (layers : List Layer) (layer : Layer)
    (path : SettingPath) :
    joinedOn start (layers ++ [layer]) path =
      overlaid (joinedOn start layers path) (layer.get? path) := by
  simp [joinedOn]

theorem joinedOn_insert (start : Option Setting) (lower upper : List Layer) (layer : Layer)
    (path : SettingPath) :
    joinedOn start (lower ++ layer :: upper) path =
      joinedOn (overlaid (joinedOn start lower path) (layer.get? path)) upper path := by
  simp [joinedOn]

theorem top?_concat (layers : List Layer) (layer : Layer) (path : SettingPath) :
    top? (layers ++ [layer]) path = (layer.get? path).or (top? layers path) := by
  simp only [top?, List.reverse_append, List.reverse_singleton, List.singleton_append,
    List.findSome?_cons]
  cases layer.get? path <;> rfl

/-- What all layers give at a path is what the highest of them gives, or both
are maps. -/
theorem joinedOn_eq_top?_or (layers : List Layer) (path : SettingPath) :
    joinedOn none layers path = top? layers path ∨
      ∃ m m', joinedOn none layers path = some (.map m) ∧ top? layers path = some (.map m') := by
  induction layers using List.reverseRecOn with
  | nil => exact Or.inl rfl
  | append_singleton layers layer ih =>
      rw [joinedOn_concat, top?_concat]
      cases hget : layer.get? path with
      | none => rwa [overlaid_none_right, Option.none_or]
      | some v =>
          rw [Option.some_or]
          cases hmap : v.isMap with
          | false => exact Or.inl (overlaid_of_not_map _ hmap)
          | true =>
              obtain ⟨m', rfl⟩ := (isMap_iff v).mp hmap
              cases joinedOn none layers path with
              | none => exact Or.inl rfl
              | some old =>
                  obtain ⟨m, hm⟩ := (isMap_iff _).mp ((isMap_overlay old (.map m')).trans hmap)
                  exact Or.inr ⟨m, m', congrArg some hm, rfl⟩

theorem joinedOn_of_replaced {layers : List Layer} {path : SettingPath}
    (hreplaced : Replaced layers path) (start start' : Option Setting) :
    joinedOn start layers path = joinedOn start' layers path := by
  obtain ⟨layer, hlayer, v, hv, hmap⟩ := hreplaced
  obtain ⟨before, after, rfl⟩ := List.append_of_mem hlayer
  rw [joinedOn_insert, joinedOn_insert, hv, overlaid_of_not_map _ hmap, overlaid_of_not_map _ hmap]

/-- If the last layer does not replace what is at a path, one before it does. -/
theorem Replaced.of_concat {layers : List Layer} {layer : Layer} {path : SettingPath}
    (hreplaced : Replaced (layers ++ [layer]) path)
    (hmaps : ∀ v, layer.get? path = some v → v.isMap = true) : Replaced layers path := by
  obtain ⟨other, hother, v, hv, hmap⟩ := hreplaced
  rcases List.mem_append.mp hother with hother | hother
  · exact ⟨other, hother, v, hv, hmap⟩
  · obtain rfl := List.mem_singleton.mp hother
    rw [hmaps v hv] at hmap
    cases hmap

/-- What is found in a value that layers give is found in one of the layers, if
the value below them is replaced as a whole. It must not be too far down, since
maps in maps may come of several layers. -/
theorem exists_get?_of_replaced {layers : List Layer} {path p : SettingPath}
    (hreplaced : Replaced layers path) {start : Option Setting} {w : Setting}
    (hjoined : joinedOn start layers path = some w) (hshallow : w.Shallow p)
    (hget : (w.get? p).isSome) :
    ∃ layer ∈ layers, ((layer.get? path).bind (Setting.get? p)).isSome := by
  -- The induction goes down from the highest layer. A map passes the search on to
  -- the layers below, where the one that replaces all must then be.
  induction layers using List.reverseRecOn generalizing w with
  | nil =>
      obtain ⟨layer, hlayer, -⟩ := hreplaced
      cases hlayer
  | append_singleton layers layer ih =>
      rw [joinedOn_concat] at hjoined
      cases hlayer : layer.get? path with
      | none =>
          rw [hlayer, overlaid_none_right] at hjoined
          have hbefore := hreplaced.of_concat (by simp [hlayer])
          obtain ⟨other, hother, hfound⟩ := ih hbefore hjoined hshallow hget
          exact ⟨other, List.mem_append_left _ hother, hfound⟩
      | some v =>
          rw [hlayer] at hjoined
          rcases isSome_get?_overlaid hjoined hshallow hget with
            hown | ⟨hmap, old, hold, hshallow, hget⟩
          · exact ⟨layer, List.mem_concat_self, by rwa [hlayer, Option.bind_some]⟩
          · have hbefore := hreplaced.of_concat (by simp [hlayer, hmap])
            obtain ⟨other, hother, hfound⟩ := ih hbefore hold hshallow hget
            exact ⟨other, List.mem_append_left _ hother, hfound⟩

section Merged

variable {layers : List Layer}

theorem merged_concat (layers : List Layer) (layer : Layer) :
    merged (layers ++ [layer]) = overlayEntries (merged layers) layer.entries := by
  simp [merged]

theorem hasTables_merged (hdistinct : ∀ layer ∈ layers, layer.IsDistinct)
    (htables : ∀ layer ∈ layers, HasTables layer.entries) : HasTables (merged layers) := by
  induction layers using List.reverseRecOn with
  | nil =>
      intro part _ v hv
      cases hv
  | append_singleton layers layer ih =>
      obtain ⟨hdistinct, hlast⟩ := List.forall_mem_append.mp hdistinct
      obtain ⟨htables, htable⟩ := List.forall_mem_append.mp htables
      rw [merged_concat]
      intro part hpart
      exact HasTable.overlayEntries (ih hdistinct htables part hpart)
        (htable layer List.mem_cons_self part hpart) (hlast layer List.mem_cons_self).names

/-- The tree of all layers has at a leaf what they give there. -/
theorem get?_merged (hdistinct : ∀ layer ∈ layers, layer.IsDistinct)
    (htables : ∀ layer ∈ layers, HasTables layer.entries) {leaf : Leaf} (hleaf : leaf ∈ Leaf.all) :
    (Setting.map (merged layers)).get? leaf.path = joinedOn none layers leaf.path := by
  obtain ⟨part, hpart, hname⟩ := Leaf.exists_part hleaf
  induction layers using List.reverseRecOn with
  | nil => rfl
  | append_singleton layers layer ih =>
      obtain ⟨hdistinct, hlast⟩ := List.forall_mem_append.mp hdistinct
      obtain ⟨htables, htable⟩ := List.forall_mem_append.mp htables
      have hbase := hasTables_merged hdistinct htables part hpart
      have htop := htable layer List.mem_cons_self part hpart
      rw [hname] at hbase htop
      rw [joinedOn_concat, ← ih hdistinct htables, merged_concat, get?, Leaf.get?_path,
        Leaf.get?_path, Leaf.get?_path,
        lookup_tableAt_overlayEntries hbase htop (hlast layer List.mem_cons_self)]

/-- What the highest layer gives decides about a leaf. -/
theorem given_joinedOn_iff {leaf : Leaf} (hleaf : leaf ∈ Leaf.all) (layers : List Layer)
    (s : Settings) :
    leaf.Given (joinedOn none layers leaf.path) s ↔ leaf.Given (top? layers leaf.path) s := by
  rcases joinedOn_eq_top?_or layers leaf.path with hsame | ⟨m, m', hm, hm'⟩
  · rw [hsame]
  · have hrefused : ∀ m, ¬ leaf.Given (some (.map m)) s := by
      intro m hgiven
      have hmap : (Setting.map m).isMap = false := (Leaf.readsLeaf hleaf).isMap_of_ok hgiven
      cases hmap
    rw [hm, hm', iff_false_intro (hrefused m), iff_false_intro (hrefused m')]

end Merged

section Holding

variable {upper : List Layer} {layer layer' : Layer} {path : SettingPath}

theorem holding?_insert (lower upper : List Layer) (layer : Layer) (path : SettingPath) :
    holding? (lower ++ layer :: upper) path =
      (holding? upper path).or ((holding? [layer] path).or (holding? lower path)) := by
  simp only [holding?, List.reverse_append, List.reverse_cons, List.append_assoc,
    List.find?_append, List.reverse_nil, List.nil_append]

/-- One layer in place of another of its origin shows in the origin of a value
only if the value is in one of the two and in no higher one. -/
theorem origin_holding?_congr (lower : List Layer) (horigin : layer'.origin = layer.origin)
    (hheld : layer'.get? path = layer.get? path ∨ ∃ high ∈ upper, (high.get? path).isSome) :
    (holding? (lower ++ layer' :: upper) path).map Layer.origin =
      (holding? (lower ++ layer :: upper) path).map Layer.origin := by
  rw [holding?_insert, holding?_insert]
  cases hupper : holding? upper path with
  | some high => rfl
  | none =>
      have hnone : ∀ high ∈ upper, ¬ (high.get? path).isSome := by
        simpa [holding?, get?] using hupper
      rcases hheld with hsame | ⟨high, hhigh, hsome⟩
      · have hone : (holding? [layer'] path).map Layer.origin =
            (holding? [layer] path).map Layer.origin := by
          simp only [get?] at hsame
          simp only [holding?, List.reverse_singleton, List.find?_singleton, hsame]
          split
          · exact congrArg some horigin
          · rfl
        rw [Option.none_or, Option.none_or, Option.map_or, Option.map_or, hone]
      · exact absurd hsome (hnone high hhigh)

end Holding

end Layer

namespace Settings

theorem brokenRule?_eq_none_iff (s : Settings) :
    s.brokenRule? = none ↔
      1 ≤ s.scan.parallelism ∧ 1 ≤ s.dependencies.batchSize ∧
        s.secrets.entropyThreshold.le (.zero .double) = false := by
  unfold brokenRule?
  simp only [beq_iff_eq]
  split
  · simp_all
  · split
    · simp_all
    · split <;> (simp_all; try omega)

theorem validate_eq_ok_iff (s t : Settings) : s.validate = .ok t ↔ s = t ∧ t.brokenRule? = none := by
  unfold validate
  constructor
  · intro hvalid
    split at hvalid
    · cases hvalid
    · obtain rfl := Except.ok.inj hvalid
      exact ⟨rfl, by assumption⟩
  · rintro ⟨rfl, hkept⟩
    rw [hkept]

theorem ofLayers_eq_ok_iff_reading (layers : List Layer) (s : Settings) :
    ofLayers layers = .ok s ↔
      Reading.settings (.map (Layer.merged layers)) = .ok s ∧ s.brokenRule? = none := by
  unfold ofLayers
  cases Reading.settings (.map (Layer.merged layers)) with
  | error fault => simp
  | ok t =>
      rw [validate_eq_ok_iff, Except.ok.injEq]

section Layers

variable {layers : List Layer} (hdistinct : ∀ layer ∈ layers, layer.IsDistinct)
  (htables : ∀ layer ∈ layers, HasTables layer.entries)

include hdistinct htables

/-- Layers give settings exactly when each leaf holds what the highest layer
gives, and no rule is broken. -/
theorem ofLayers_eq_ok_iff (s : Settings) :
    ofLayers layers = .ok s ↔
      (∀ leaf ∈ Leaf.all, leaf.Given (Layer.top? layers leaf.path) s) ∧
        s.brokenRule? = none := by
  rw [ofLayers_eq_ok_iff_reading,
    Reading.settings_map_eq_ok_iff (Layer.hasTables_merged hdistinct htables)]
  refine and_congr_left' (forall₂_congr fun leaf hleaf => ?_)
  rw [Layer.get?_merged hdistinct htables hleaf, Layer.given_joinedOn_iff hleaf]

end Layers

/-- A layer may be changed at leaves that a higher layer replaces. Neither the
settings nor an error, with the origin that it names, show it. -/
theorem ofLayers_congr {lower upper : List Layer} {layer layer' : Layer}
    (hdistinct : ∀ l ∈ lower ++ layer :: upper, l.IsDistinct)
    (htables : ∀ l ∈ lower ++ layer :: upper, HasTables l.entries)
    (hdistinct' : layer'.IsDistinct) (htables' : HasTables layer'.entries)
    (horigin : layer'.origin = layer.origin)
    (hhidden : ∀ leaf ∈ Leaf.all,
      layer'.get? leaf.path = layer.get? leaf.path ∨ Layer.Replaced upper leaf.path) :
    ofLayers (lower ++ layer' :: upper) = ofLayers (lower ++ layer :: upper) := by
  have hothers : ∀ {P : Layer → Prop}, (∀ l ∈ lower ++ layer :: upper, P l) → P layer' →
      ∀ l ∈ lower ++ layer' :: upper, P l := by
    intro P hall hnew l hl
    rw [List.forall_mem_append, List.forall_mem_cons] at hall
    rcases List.mem_append.mp hl with hl | hl
    · exact hall.1 l hl
    · rcases List.mem_cons.mp hl with rfl | hl
      · exact hnew
      · exact hall.2.2 l hl
  have hdistincts := hothers hdistinct hdistinct'
  have htabless := hothers htables htables'
  have hleaves : ∀ leaf ∈ Leaf.all,
      (Setting.map (Layer.merged (lower ++ layer' :: upper))).get? leaf.path =
        (Setting.map (Layer.merged (lower ++ layer :: upper))).get? leaf.path := by
    intro leaf hleaf
    rw [Layer.get?_merged hdistincts htabless hleaf, Layer.get?_merged hdistinct htables hleaf,
      Layer.joinedOn_insert, Layer.joinedOn_insert]
    rcases hhidden leaf hleaf with hsame | hreplaced
    · rw [hsame]
    · exact Layer.joinedOn_of_replaced hreplaced _ _
  have hread := Reading.settings_map_congr (Layer.hasTables_merged hdistincts htabless)
    (Layer.hasTables_merged hdistinct htables) hleaves
  unfold ofLayers
  rw [hread]
  cases hcase : Reading.settings (.map (Layer.merged (lower ++ layer :: upper))) with
  | ok s => rfl
  | error fault =>
      obtain ⟨leaf, hleaf, v, inner, hv, hinner, rfl⟩ :=
        Reading.fault_of_settings_map (Layer.hasTables_merged hdistinct htables) hcase
      have hreads := Leaf.readsLeaf hleaf
      -- The error is about something that the layer holds as before, or that a
      -- higher one holds; so it names the same origin.
      have hheld : layer'.get? (leaf.path ++ inner.path) = layer.get? (leaf.path ++ inner.path) ∨
          ∃ high ∈ upper, (high.get? (leaf.path ++ inner.path)).isSome := by
        simp only [Layer.get?, Setting.get?_append]
        rcases hhidden leaf hleaf with hsame | hreplaced
        · left
          exact congrArg (Option.bind · (Setting.get? inner.path)) hsame
        · right
          rw [Layer.get?_merged hdistinct htables hleaf, Layer.joinedOn_insert] at hv
          obtain ⟨w, hw⟩ := hreads.points v inner hinner
          exact Layer.exists_get?_of_replaced hreplaced hv (hreads.shallow hinner)
            (Option.isSome_of_mem hw)
      dsimp only
      rw [Layer.origin_holding?_congr lower horigin hheld]

end Settings

namespace Machine

def layerOf (m : Machine) (path : Option Path) : Option (Except LayerFault Layer) :=
  ((path.filter m.has).bind m.findFile?).map m.fileLayer

structure Stack where
  user : Option Layer
  workspace : Option Layer
  explicit : Option Layer
  environment : Layer

def Stack.layers (stack : Stack) : List Layer :=
  stack.user.toList ++ stack.workspace.toList ++ stack.explicit.toList ++ [stack.environment]

/-- Which layers a run on a machine has: a file that is named is there, and each
file that is there gives its layer. -/
structure Stacks (m : Machine) (workspace explicit : Option Path) (stack : Stack) : Prop where
  present : ∀ path, explicit = some path → m.has path = true
  user : m.layerOf m.userFile? = stack.user.map .ok
  workspace : m.layerOf (workspace.map workspaceFile) = stack.workspace.map .ok
  explicit : m.layerOf explicit = stack.explicit.map .ok
  environment : stack.environment = ⟨.environment, m.environment.settings⟩

theorem collectLayers_eq_ok_iff {results : List (Except LayerFault Layer)} {layers : List Layer} :
    collectLayers results = .ok layers ↔ results = layers.map .ok := by
  induction results generalizing layers with
  | nil => cases layers <;> simp [collectLayers]
  | cons result rest ih =>
      cases result with
      | error fault =>
          have hfails : ∀ layers, collectLayers (.error fault :: rest) ≠ .ok layers := by
            intro layers
            rw [collectLayers]
            cases collectLayers rest <;> simp
          cases layers <;> simp [hfails]
      | ok layer =>
          rw [collectLayers]
          cases layers with
          | nil => cases collectLayers rest <;> simp [Except.map]
          | cons first others =>
              rw [List.map_cons, List.cons.injEq, Except.ok.injEq, ← ih]
              cases collectLayers rest <;> simp [Except.map]

/-- The results of the files of a run, in their order. -/
theorem results_eq (m : Machine) (workspace explicit : Option Path) :
    ((m.settingsFiles workspace explicit).filterMap m.findFile?).map m.fileLayer =
      (m.layerOf m.userFile?).toList ++ (m.layerOf (workspace.map workspaceFile)).toList ++
        (m.layerOf explicit).toList := by
  have hone : ∀ path : Option Path,
      ((path.toList.filter m.has).filterMap m.findFile?).map m.fileLayer =
        (m.layerOf path).toList := by
    intro path
    unfold layerOf
    cases path with
    | none => rfl
    | some p =>
        cases hhas : m.has p with
        | false => simp [hhas]
        | true => cases hfind : m.findFile? p <;> simp [Option.filter, hhas, hfind]
  simp only [settingsFiles, List.filter_append, List.filterMap_append, List.map_append, hone]

section Stacks

variable {m : Machine} {workspace explicit : Option Path} {stack : Stack}

/-- The settings of a run are those of its layers. -/
theorem Stacks.settings_eq (hstacks : m.Stacks workspace explicit stack) :
    m.settings workspace explicit = Settings.ofLayers stack.layers := by
  have hpresent : explicit.filter (fun path => !m.has path) = none := by
    cases explicit with
    | none => rfl
    | some path => simp [hstacks.present path rfl]
  have hresults : collectLayers
      (((m.settingsFiles workspace explicit).filterMap m.findFile?).map m.fileLayer) =
        .ok (stack.user.toList ++ stack.workspace.toList ++ stack.explicit.toList) := by
    rw [collectLayers_eq_ok_iff, results_eq, hstacks.user, hstacks.workspace, hstacks.explicit]
    simp [Option.toList_map]
  unfold settings
  rw [hpresent]
  dsimp only
  rw [hresults, Stack.layers, hstacks.environment]

/-- A run with settings has layers. -/
theorem exists_stacks {s : Settings} (hsettings : m.settings workspace explicit = .ok s) :
    ∃ stack, m.Stacks workspace explicit stack := by
  unfold settings at hsettings
  cases hpresent : explicit.filter (fun path => !m.has path) with
  | some path =>
      rw [hpresent] at hsettings
      cases hsettings
  | none =>
      rw [hpresent] at hsettings
      dsimp only at hsettings
      cases hresults : collectLayers
          (((m.settingsFiles workspace explicit).filterMap m.findFile?).map m.fileLayer) with
      | error faults =>
          rw [hresults] at hsettings
          cases hsettings
      | ok layers =>
          rw [collectLayers_eq_ok_iff, results_eq] at hresults
          have hgives : ∀ result : Option (Except LayerFault Layer),
              result.toList ⊆ layers.map Except.ok →
                ∃ layer : Option Layer, result = layer.map .ok := by
            intro result hsubset
            cases result with
            | none => exact ⟨none, rfl⟩
            | some r =>
                obtain ⟨layer, -, rfl⟩ := List.mem_map.mp (hsubset List.mem_cons_self)
                exact ⟨some layer, rfl⟩
          rw [← hresults] at hgives
          obtain ⟨user, huser⟩ := hgives (m.layerOf m.userFile?)
            (List.subset_append_of_subset_left _ (List.subset_append_left _ _))
          obtain ⟨own, hown⟩ := hgives (m.layerOf (workspace.map workspaceFile))
            (List.subset_append_of_subset_left _ (List.subset_append_right _ _))
          obtain ⟨named, hnamed⟩ := hgives (m.layerOf explicit) (List.subset_append_right _ _)
          refine ⟨⟨user, own, named, _⟩, ?_, huser, hown, hnamed, rfl⟩
          rintro path rfl
          simpa using hpresent

theorem isDistinct_of_fileLayer {file : Path} {layer : Layer}
    (hlayer : m.fileLayer file = .ok layer) : layer.IsDistinct := by
  simp only [fileLayer] at hlayer
  split at hlayer
  · cases hlayer
  · split at hlayer
    · rename_i entries hparse
      obtain rfl := Except.ok.inj hlayer
      exact Toml.parse?_distinct hparse
    · cases hlayer

theorem isDistinct_of_layerOf {path : Option Path} {layer : Option Layer}
    (hlayer : m.layerOf path = layer.map .ok) : ∀ l ∈ layer.toList, l.IsDistinct := by
  intro l hl
  obtain rfl := Option.mem_toList.mp hl
  obtain ⟨file, -, hfile⟩ := Option.map_eq_some_iff.mp hlayer
  exact isDistinct_of_fileLayer hfile

/-- All layers of a run give each name once. -/
theorem Stacks.isDistinct (hstacks : m.Stacks workspace explicit stack) :
    ∀ layer ∈ stack.layers, layer.IsDistinct := by
  simp only [Stack.layers, List.forall_mem_append, List.forall_mem_singleton]
  refine ⟨⟨⟨isDistinct_of_layerOf hstacks.user, isDistinct_of_layerOf hstacks.workspace⟩,
    isDistinct_of_layerOf hstacks.explicit⟩, ?_⟩
  rw [hstacks.environment]
  exact Environment.settings_distinct m.environment

end Stacks

/-- The highest layer decides. Settings of a run have layers and keep the rules.
If its layers give the parts as maps, a run has exactly the settings that hold at
each leaf what the highest layer gives which gives anything, or the default if
none does, provided that they keep the rules. A layer may be another one at
leaves that a higher layer replaces: the run has the same settings, or the same
error. -/
theorem highest_layer_decides (m : Machine) (workspace explicit : Option Path) :
    (∀ s, m.settings workspace explicit = .ok s →
      (∃ stack, m.Stacks workspace explicit stack) ∧
        1 ≤ s.scan.parallelism ∧ 1 ≤ s.dependencies.batchSize) ∧
    ∀ stack, m.Stacks workspace explicit stack →
      (∀ layer ∈ stack.layers, HasTables layer.entries) →
      (∀ s, m.settings workspace explicit = .ok s ↔
        (∀ leaf ∈ Leaf.all, leaf.Given (Layer.top? stack.layers leaf.path) s) ∧
          1 ≤ s.scan.parallelism ∧ 1 ≤ s.dependencies.batchSize ∧
          s.secrets.entropyThreshold.le (.zero .double) = false) ∧
      ∀ (m' : Machine) workspace' explicit' stack' lower layer layer' upper,
        m'.Stacks workspace' explicit' stack' →
        stack.layers = lower ++ layer :: upper → stack'.layers = lower ++ layer' :: upper →
        layer'.origin = layer.origin → HasTables layer'.entries →
        (∀ leaf ∈ Leaf.all,
          layer'.get? leaf.path = layer.get? leaf.path ∨ Layer.Replaced upper leaf.path) →
        m'.settings workspace' explicit' = m.settings workspace explicit := by
  constructor
  · intro s hsettings
    obtain ⟨stack, hstacks⟩ := exists_stacks hsettings
    rw [hstacks.settings_eq, Settings.ofLayers_eq_ok_iff_reading] at hsettings
    obtain ⟨hparallelism, hbatchSize, -⟩ := (Settings.brokenRule?_eq_none_iff s).mp hsettings.2
    exact ⟨⟨stack, hstacks⟩, hparallelism, hbatchSize⟩
  · intro stack hstacks htables
    constructor
    · intro s
      rw [hstacks.settings_eq, Settings.ofLayers_eq_ok_iff hstacks.isDistinct htables,
        Settings.brokenRule?_eq_none_iff]
    · intro m' workspace' explicit' stack' lower layer layer' upper hstacks' hlayers hlayers'
        horigin htables' hhidden
      have hdistinct := hstacks.isDistinct
      have hdistinct' : layer'.IsDistinct := by
        apply hstacks'.isDistinct
        rw [hlayers']
        exact List.mem_append_right lower List.mem_cons_self
      rw [hstacks.settings_eq, hstacks'.settings_eq, hlayers, hlayers']
      rw [hlayers] at hdistinct htables
      exact Settings.ofLayers_congr hdistinct htables hdistinct' htables' horigin hhidden

/-- A machine with three numbers of workers: one that the user asks for, none in
the project, and four in the environment. -/
def askedThrice (asked : String) : Machine where
  files := .directory
    [("etc", .directory [("shipguard", .directory
        [("config.toml", .file (.text ("[scan]\nparallelism = " ++ asked ++ "\n")))])]),
      ("work", .directory [(".shipguard", .directory
        [("config.toml", .file (.text "[scan]\nparallelism = 0\n"))])])]
  directory := ⟨"/work"⟩
  environment := [("XDG_CONFIG_HOME", "/etc"), ("SHIPGUARD_SCAN__PARALLELISM", "4")]

def askedThriceStack (asked : Setting) : Stack where
  user := some ⟨.file ⟨"/etc/shipguard/config.toml"⟩, [("scan", .map [("parallelism", asked)])]⟩
  workspace := some ⟨.file ⟨".shipguard/config.toml"⟩,
    [("scan", .map [("parallelism", .signed 0)])]⟩
  explicit := none
  environment := ⟨.environment, [("scan", .map [("parallelism", .unsigned 4)])]⟩

/-- The number in the environment counts, and neither a text in place of a number
nor a number that breaks a rule shows below it. -/
theorem askedThrice_settings :
    (askedThrice "\"many\"").settings (some ⟨"/work"⟩) none =
        .ok { scan := { parallelism := 4 } } ∧
      (askedThrice "\"many\"").settings (some ⟨"/work"⟩) none =
        (askedThrice "2").settings (some ⟨"/work"⟩) none := by
  have hmany : (askedThrice "\"many\"").Stacks (some ⟨"/work"⟩) none
      (askedThriceStack (.text "many")) :=
    ⟨by simp, by decide +kernel, by decide +kernel, rfl, by decide +kernel⟩
  have htwo : (askedThrice "2").Stacks (some ⟨"/work"⟩) none (askedThriceStack (.signed 2)) :=
    ⟨by simp, by decide +kernel, by decide +kernel, rfl, by decide +kernel⟩
  have htables : ∀ asked, ∀ layer ∈ (askedThriceStack asked).layers, HasTables layer.entries := by
    intro asked
    simp [askedThriceStack, Stack.layers, HasTables, HasTable, partSlots, lookup_cons_ite,
      Setting.isMap]
  have hdecides := fun asked text hstacks =>
    (highest_layer_decides (askedThrice text) (some ⟨"/work"⟩) none).2 (askedThriceStack asked)
      hstacks (htables asked)
  constructor
  · refine ((hdecides _ _ hmany).1 _).mpr ⟨?_, by decide, by decide, by decide +kernel⟩
    have hothers : ∀ leaf ∈ Leaf.all.tail,
        Layer.top? (askedThriceStack (.text "many")).layers leaf.path = none := by decide +kernel
    have hdefaults : ∀ leaf ∈ Leaf.all.tail,
        leaf.get { scan := { parallelism := 4 } } = leaf.get {} := by
      simp [Leaf.all, Reading.scanSlots, Reading.secretSlots, Reading.lookupSlots,
        Reading.policySlots, Reading.detectorSlots, Reading.Slot.leaf]
    have hall : Leaf.all = Leaf.all.head (by decide) :: Leaf.all.tail := rfl
    rw [hall]
    refine List.forall_mem_cons.mpr ⟨rfl, fun leaf hleaf => ?_⟩
    rw [hothers leaf hleaf]
    exact hdefaults leaf hleaf
  · refine ((hdecides _ _ htwo).2 _ _ _ _ [] _ _ _ hmany rfl rfl rfl ?_ ?_)
    · exact htables (.text "many") _ List.mem_cons_self
    · decide +kernel

end Machine

end WebAudit
