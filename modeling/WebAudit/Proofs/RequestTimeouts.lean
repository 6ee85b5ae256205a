import Mathlib.Data.String.Basic
import WebAudit.Detector.HttpClient
import WebAudit.Proofs.Aggregation

/-!
Requests without a limit on their time, from the script to the report. The
check tells calls on one line apart by their library and makes a finding for
each. Their keys have no room for a library, so a report keeps one finding for
each line: that of the library whose name comes first. All that the check finds
is shown exactly when no line has open requests of two libraries.
-/

namespace WebAudit.HttpClient

open Script

/-- Options that surely leave the time of a request open: there are none, a
function stands in their place, or they are an object that neither bounds the
time nor takes in another object. -/
def LeavesOpen (text : List Char) : Option Node → Prop
  | none => True
  | some options =>
    options.kind = .arrowFunction ∨ options.kind = .functionExpression ∨
      options.kind = .object ∧ (∀ m ∈ options.children, m.kind ≠ .spread) ∧
        ∀ m ∈ options.children, ∀ key ∈ timeoutKeys, m.memberKey? text ≠ some key.toList

/-- A line of a script, without the mark that silences checks, on which a call
of a client starts that leaves the time of its request open. -/
def Offends (ctx : FileContext) (line : Nat) (library : String) : Prop :=
  isSuppressedAt ctx.lines line = false ∧
    ∃ source call client, ctx.script? = some source ∧ call ∈ source.calls ∧ call.line = line ∧
      call.constructs = false ∧ classify? call.callee = some client ∧
      client.library = library ∧
      LeavesOpen source.text (call.argument? (optionsIndex call client.options))

theorem hasAny_eq_false_iff (text : List Char) (members : List Node) (spread : Bool) :
    ObjectShape.hasAny ⟨members.filterMap (Node.memberKey? text), spread⟩ timeoutKeys = false ↔
      ∀ m ∈ members, ∀ key ∈ timeoutKeys, m.memberKey? text ≠ some key.toList := by
  simp only [ObjectShape.hasAny, ObjectShape.hasKey, List.any_eq_false, List.contains_iff_mem,
    List.mem_filterMap, not_exists, not_and]
  exact ⟨fun h m hm key hkey => h key hkey m hm, fun h key hkey m hm => h m hm key hkey⟩

theorem bounds?_eq_false_iff (text : List Char) (options : Node) :
    bounds? text options = some false ↔ LeavesOpen text (some options) := by
  unfold bounds? Node.shape? LeavesOpen
  by_cases hobject : options.kind = .object
  · have hany := hasAny_eq_false_iff text options.children
      (options.children.any fun c => c.kind == .spread)
    have hspread : (options.children.any fun c => c.kind == .spread) = false ↔
        ∀ m ∈ options.children, m.kind ≠ .spread := by
      simp
    simp only [hobject, beq_self_eq_true, if_true, reduceCtorEq, false_or, true_and, ← hany,
      ← hspread]
    cases ObjectShape.hasAny ⟨options.children.filterMap (Node.memberKey? text),
        options.children.any fun c => c.kind == .spread⟩ timeoutKeys <;>
      cases options.children.any (fun c => c.kind == .spread) <;> simp
  · simp [hobject, or_iff_not_imp_left]

theorem hasTimeout?_eq_false_iff (text : List Char) (call : Call) (place : OptionsPlace) :
    hasTimeout? text call place = some false ↔
      LeavesOpen text (call.argument? (optionsIndex call place)) := by
  unfold hasTimeout?
  cases call.argument? (optionsIndex call place) with
  | none => simp [LeavesOpen]
  | some options => exact bounds?_eq_false_iff text options

theorem offence?_eq_some_iff (text : List Char) (lines : List (List Char)) (call : Call)
    (line : Nat) (library : String) :
    offence? text lines call = some (line, library) ↔
      isSuppressedAt lines line = false ∧ call.line = line ∧ call.constructs = false ∧
        ∃ client, classify? call.callee = some client ∧ client.library = library ∧
          LeavesOpen text (call.argument? (optionsIndex call client.options)) := by
  constructor
  · intro hoffence
    unfold offence? at hoffence
    split at hoffence
    · cases hoffence
    · rename_i hcall
      split at hoffence
      · rename_i client hclient
        split at hoffence
        · cases hoffence
        · rename_i hopen
          split at hoffence
          · cases hoffence
          · rename_i hmark
            obtain ⟨rfl, rfl⟩ := Prod.mk.inj (Option.some.inj hoffence)
            refine ⟨by simpa using hmark, rfl, by simpa using hcall, client, hclient, rfl, ?_⟩
            exact (hasTimeout?_eq_false_iff _ _ _).mp (by simpa using hopen)
      · cases hoffence
  · rintro ⟨hmark, rfl, hcall, client, hclient, rfl, hopen⟩
    simp [offence?, hcall, hclient, (hasTimeout?_eq_false_iff _ _ _).mpr hopen, hmark]

/-- The lines and libraries of the calls that leave the time of their request
open, call by call. -/
def offences (ctx : FileContext) : List (Nat × String) :=
  (ctx.script?.map fun source => source.calls.filterMap (offence? source.text ctx.lines)).getD []

theorem offends_iff_mem_offences (ctx : FileContext) (line : Nat) (library : String) :
    Offends ctx line library ↔ (line, library) ∈ offences ctx := by
  unfold Offends offences
  cases ctx.script? with
  | none => simp
  | some source =>
      simp only [Option.some.injEq, exists_and_left, exists_eq_left', Option.map_some,
        Option.getD_some, List.mem_filterMap, offence?_eq_some_iff]
      constructor
      · rintro ⟨hmark, call, hcall, hline, hplain, client, hclient, hlibrary, hopen⟩
        exact ⟨call, hcall, hmark, hline, hplain, client, hclient, hlibrary, hopen⟩
      · rintro ⟨call, hcall, hmark, hline, hplain, client, hclient, hlibrary, hopen⟩
        exact ⟨hmark, call, hcall, hline, hplain, client, hclient, hlibrary, hopen⟩

/-- The check finds a line and a library once for all calls of the library that
start on the line. -/
theorem mem_detect_iff (ctx : FileContext) (f : Finding) :
    f ∈ detect ctx ↔
      ∃ line library, Offends ctx line library ∧ report ctx.path line library = f := by
  have hdetect : detect ctx =
      (firstOfEach id (offences ctx)).map fun p => report ctx.path p.1 p.2 := by
    unfold detect offences
    cases ctx.script? <;> rfl
  have hmember : ∀ p, p ∈ firstOfEach id (offences ctx) ↔ p ∈ offences ctx := by
    intro p
    constructor
    · exact fun hp => (firstOfEachFrom_sublist id [] _).subset hp
    · intro hp
      obtain ⟨q, hq, rfl, -⟩ := exists_first_before id (fun _ _ => True) [] _
        (List.pairwise_of_forall fun _ _ => trivial) hp List.not_mem_nil
      exact hq
  simp only [hdetect, List.mem_map, hmember, Prod.exists, offends_iff_mem_offences]

section Fields

variable (path : Path) (line : Nat) (library : String)

@[simp]
theorem report_key :
    (report path line library).key = ⟨path.text, some line, .httpClient, missingTimeoutKind⟩ :=
  rfl

@[simp]
theorem report_location : (report path line library).location = .atLine path line := rfl

@[simp]
theorem report_kind : (report path line library).kind = missingTimeoutKind := rfl

@[simp]
theorem report_severity : (report path line library).severity = .medium := rfl

@[simp]
theorem report_payload : (report path line library).payload = .library library := rfl

end Fields

theorem line?_atLine (path : Path) (line : Nat) : (Location.atLine path line).line? = some line :=
  rfl

def libraries : List String := ["axios", "fetch", "got", "http", "https", "ky", "request"]

theorem library_mem_of_ofName? {name : String} {client : ClientCall}
    (hclient : ofName? name = some client) : client.library ∈ libraries := by
  unfold ofName? at hclient
  split at hclient
  all_goals cases hclient
  all_goals decide

theorem library_mem_of_ofMember? {object property : String} {client : ClientCall}
    (hclient : ofMember? object property = some client) : client.library ∈ libraries := by
  unfold ofMember? at hclient
  dsimp only at hclient
  repeat' split at hclient
  all_goals cases hclient
  all_goals decide

theorem library_mem_of_classify? {callee : Callee} {client : ClientCall}
    (hclient : classify? callee = some client) : client.library ∈ libraries := by
  unfold classify? at hclient
  split at hclient
  · exact library_mem_of_ofName? hclient
  · split at hclient
    · exact library_mem_of_ofMember? hclient
    · cases hclient
  · cases hclient

theorem Offends.library_mem {ctx : FileContext} {line : Nat} {library : String}
    (hoffends : Offends ctx line library) : library ∈ libraries := by
  obtain ⟨-, source, call, client, -, -, -, -, hclient, rfl, -⟩ := hoffends
  exact library_mem_of_classify? hclient

/-- On one line, the findings stand in the order of the names of libraries. -/
theorem order_report {path : Path} {line : Nat} {library library' : String}
    (hmember : library ∈ libraries) (hmember' : library' ∈ libraries)
    (hless : library < library') :
    (report path line library).order (report path line library') = .lt := by
  have hmessage : ∀ l ∈ libraries, ∀ l' ∈ libraries, l < l' →
      compare (l ++ " request without a timeout or abort signal")
        (l' ++ " request without a timeout or abort signal") = .lt := by
    decide +kernel
  simp [Finding.order, report, Finding.new, Finding.withDetails, Finding.withPayload,
    Location.atLine, Location.line?, orderOption,
    hmessage library hmember library' hmember' hless]

section Report

variable (policy : Policy) (ctx : FileContext) (errors : List Finding)

def shown : List Finding := (aggregate policy .all (detect ctx) errors).findings

private theorem represents_shown : Represents (detect ctx) (shown policy ctx errors) :=
  represents_deduplicate _

theorem offends_of_mem_shown {f : Finding} (hmember : f ∈ shown policy ctx errors) :
    ∃ line library, Offends ctx line library ∧ report ctx.path line library = f :=
  (mem_detect_iff ctx f).mp ((represents_shown policy ctx errors).sound f hmember).1

/-- A line with open requests has one finding, for the first of their
libraries. -/
theorem shown_on_line {line : Nat} {library : String} (hoffends : Offends ctx line library) :
    ∃ first, Offends ctx line first ∧ (∀ other, Offends ctx line other → first ≤ other) ∧
      (shown policy ctx errors).filter (fun f => f.location.line? = some line) =
        [report ctx.path line first] := by
  have hfound : ∀ other, Offends ctx line other → report ctx.path line other ∈ detect ctx :=
    fun other hother => (mem_detect_iff ctx _).mpr ⟨line, other, hother, rfl⟩
  have hcomplete : ∀ other, Offends ctx line other → ∃ g,
      (shown policy ctx errors).filter
          (fun h => h.key = ⟨ctx.path.text, some line, .httpClient, missingTimeoutKind⟩) = [g] ∧
        (report ctx.path line other).order g ≠ .lt := by
    intro other hother
    obtain ⟨g, hfilter, horder, -⟩ := (represents_shown policy ctx errors).complete _
      (hfound other hother) (by simp)
    exact ⟨g, hfilter, horder⟩
  obtain ⟨g, hfilter, -⟩ := hcomplete library hoffends
  obtain ⟨hg, hkey⟩ := mem_of_filter_eq_singleton hfilter
  obtain ⟨line', first, hfirst, rfl⟩ := offends_of_mem_shown policy ctx errors hg
  obtain rfl : line' = line := by simpa using hkey
  refine ⟨first, hfirst, ?_, ?_⟩
  · intro other hother
    obtain ⟨g, hfilter', horder⟩ := hcomplete other hother
    obtain rfl := List.singleton_inj.mp (hfilter.symm.trans hfilter')
    by_contra hless
    exact horder (order_report hother.library_mem hfirst.library_mem (not_le.mp hless))
  · -- the keys of what is shown differ in the line only
    rw [← hfilter]
    apply List.filter_congr
    intro h hh
    obtain ⟨line'', library'', -, rfl⟩ := offends_of_mem_shown policy ctx errors hh
    simp [line?_atLine]

/-- Whether a finding is about requests of a library on a line of a file. -/
def isAbout (path : Path) (line : Nat) (library : String) (f : Finding) : Bool :=
  f.kind == missingTimeoutKind && f.location == .atLine path line &&
    f.payload == .library library

/-- Each line and library with open requests has one finding of its own. -/
def OncePerLibrary : Prop :=
  ∀ line library, Offends ctx line library →
    ∃ f, (shown policy ctx errors).filter (isAbout ctx.path line library) = [f]

theorem isAbout_report (path : Path) (line line' : Nat) (library library' : String) :
    isAbout path line library (report path line' library') ↔ line' = line ∧ library' = library := by
  simp [isAbout, Location.atLine]

theorem oncePerLibrary_iff :
    OncePerLibrary policy ctx errors ↔
      ∀ line library library', Offends ctx line library → Offends ctx line library' →
        library = library' := by
  constructor
  · intro honce line library library' hoffends hoffends'
    obtain ⟨first, -, -, hfilter⟩ := shown_on_line policy ctx errors hoffends
    -- the finding about either library is the one that the line has
    have hfirst : ∀ other, Offends ctx line other → first = other := by
      intro other hother
      obtain ⟨f, habout⟩ := honce line other hother
      obtain ⟨hf, hisAbout⟩ := mem_of_filter_eq_singleton habout
      obtain ⟨line', library'', -, rfl⟩ := offends_of_mem_shown policy ctx errors hf
      obtain ⟨rfl, rfl⟩ := (isAbout_report ctx.path line line' other library'').mp hisAbout
      have hmember : report ctx.path line' library'' ∈ [report ctx.path line' first] := by
        rw [← hfilter, List.mem_filter]
        exact ⟨hf, by simp [line?_atLine]⟩
      have hpayload := congrArg Finding.payload (List.mem_singleton.mp hmember)
      exact (Payload.library.inj hpayload).symm
    rw [← hfirst library hoffends, ← hfirst library' hoffends']
  · intro halone line library hoffends
    obtain ⟨first, hfirst, -, hfilter⟩ := shown_on_line policy ctx errors hoffends
    obtain rfl := halone line first library hfirst hoffends
    refine ⟨report ctx.path line first, ?_⟩
    rw [← hfilter]
    apply List.filter_congr
    intro h hh
    obtain ⟨line', library', hoffends', rfl⟩ := offends_of_mem_shown policy ctx errors hh
    rw [Bool.eq_iff_iff, isAbout_report, report_location, line?_atLine, decide_eq_true_iff,
      Option.some.injEq, and_iff_left_iff_imp]
    rintro rfl
    exact halone line' library' first hoffends' hfirst

end Report

/-- A line with open requests of two libraries. -/
def pairContext : FileContext where
  path := ⟨"api.js"⟩
  content := "Promise.all([fetch('/a'), axios.get('/b')]);\n"

end WebAudit.HttpClient
