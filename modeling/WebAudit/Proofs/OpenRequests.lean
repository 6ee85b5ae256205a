import WebAudit.Proofs.RequestTimeouts
import WebAudit.Proofs.TreeWalk

/-!
Which calls of a script are reported as requests without a limit on their time.
The nodes of a tree are numbered in pre-order. A node is reported when it is the
first open call of its line and library, and the findings stand in the order of
these nodes. Whether a call is open is told here from the tree alone: what is
called stands in a table of clients, and of the arguments only the one in the
place of the options counts.
-/

namespace WebAudit.HttpClient

open Script

/-- Calls of clients by a plain name. -/
def namedClients : List (String × ClientCall) :=
  [("fetch", ⟨"fetch", .at 1⟩), ("$fetch", ⟨"fetch", .at 1⟩), ("ofetch", ⟨"fetch", .at 1⟩),
    ("axios", ⟨"axios", .firstObjectOrSecond⟩), ("got", ⟨"got", .firstObjectOrSecond⟩),
    ("ky", ⟨"ky", .at 1⟩), ("request", ⟨"request", .firstObjectOrSecond⟩)]

/-- Calls of clients by a member: the objects, their members and the client. -/
def memberClients : List (List String × List String × ClientCall) :=
  [(["window", "globalThis", "global", "self"], ["fetch"], ⟨"fetch", .at 1⟩),
    (["axios"], ["get", "delete", "head", "options"], ⟨"axios", .at 1⟩),
    (["axios"], ["post", "put", "patch"], ⟨"axios", .at 2⟩),
    (["axios"], ["request", "create"], ⟨"axios", .at 0⟩),
    (["got"], ["get", "post", "put", "patch", "delete", "head"], ⟨"got", .firstObjectOrSecond⟩),
    (["ky"], ["get", "post", "put", "patch", "delete", "head"], ⟨"ky", .at 1⟩),
    (["http"], ["get", "request"], ⟨"http", .firstObjectOrSecond⟩),
    (["https"], ["get", "request"], ⟨"https", .firstObjectOrSecond⟩)]

inductive Calls : Callee → ClientCall → Prop
  | name {text : List Char} {client : ClientCall}
      (hrow : (String.ofList text, client) ∈ namedClients) : Calls (.name text) client
  | member {callee : Callee} {object property : List Char}
      {row : List String × List String × ClientCall} (hobject : callee.objectName? = some object)
      (hproperty : callee.property? = some property) (hrow : row ∈ memberClients)
      (hlisted : String.ofList object ∈ row.1) (hlisted' : String.ofList property ∈ row.2.1) :
      Calls callee row.2.2

theorem ofName?_eq_some_iff (name : String) (client : ClientCall) :
    ofName? name = some client ↔ (name, client) ∈ namedClients := by
  have hrows : ∀ row ∈ namedClients, ofName? row.1 = some row.2 := by decide
  constructor
  · intro hclient
    unfold ofName? at hclient
    split at hclient
    all_goals cases hclient
    all_goals decide
  · exact hrows (name, client)

theorem ofMember?_eq_some_iff (object property : String) (client : ClientCall) :
    ofMember? object property = some client ↔
      ∃ row ∈ memberClients, object ∈ row.1 ∧ property ∈ row.2.1 ∧ row.2.2 = client := by
  have hrows : ∀ row ∈ memberClients, ∀ object ∈ row.1, ∀ property ∈ row.2.1,
      ofMember? object property = some row.2.2 := by
    decide
  constructor
  · intro hclient
    -- the row of the table that a branch reads off
    have hrow (i : Nat) {row : List String × List String × ClientCall} {object : String}
        (hat : memberClients[i]? = some row) (hobject : object ∈ row.1)
        (hproperty : row.2.1.contains property = true) (hsame : some row.2.2 = some client) :
        ∃ row ∈ memberClients, object ∈ row.1 ∧ property ∈ row.2.1 ∧ row.2.2 = client :=
      ⟨row, List.mem_of_getElem? hat, hobject, List.contains_iff_mem.mp hproperty,
        Option.some.inj hsame⟩
    unfold ofMember? at hclient
    dsimp only at hclient
    split at hclient
    · rename_i hfetch
      obtain ⟨hproperty, hhost⟩ := Bool.and_eq_true_iff.mp hfetch
      obtain rfl := eq_of_beq hproperty
      exact hrow 0 rfl (List.contains_iff_mem.mp hhost) rfl hclient
    · split at hclient
      · split at hclient
        · exact hrow 1 rfl List.mem_cons_self ‹_› hclient
        · split at hclient
          · exact hrow 2 rfl List.mem_cons_self ‹_› hclient
          · split at hclient
            · exact hrow 3 rfl List.mem_cons_self ‹_› hclient
            · cases hclient
      · split at hclient
        · exact hrow 4 rfl List.mem_cons_self ‹_› hclient
        · cases hclient
      · split at hclient
        · exact hrow 5 rfl List.mem_cons_self ‹_› hclient
        · cases hclient
      · split at hclient
        · exact hrow 6 rfl List.mem_cons_self ‹_› hclient
        · cases hclient
      · split at hclient
        · exact hrow 7 rfl List.mem_cons_self ‹_› hclient
        · cases hclient
      · cases hclient
  · rintro ⟨row, hrow, hobject, hproperty, rfl⟩
    exact hrows row hrow object hobject property hproperty

theorem classify?_eq_some_iff (callee : Callee) (client : ClientCall) :
    classify? callee = some client ↔ Calls callee client := by
  constructor
  · intro hclient
    cases callee with
    | name text => exact .name ((ofName?_eq_some_iff _ _).mp hclient)
    | member object property =>
        obtain ⟨row, hrow, hobject, hproperty, rfl⟩ := (ofMember?_eq_some_iff _ _ _).mp hclient
        exact .member rfl rfl hrow hobject hproperty
    | other => cases hclient
  · intro hcalls
    cases hcalls with
    | name hrow => exact (ofName?_eq_some_iff _ _).mpr hrow
    | member hobject hproperty hrow hlisted hlisted' =>
        cases callee with
        | name text => cases hobject
        | member object property =>
            obtain rfl := Option.some.inj hobject
            obtain rfl := Option.some.inj hproperty
            exact (ofMember?_eq_some_iff _ _ _).mpr ⟨_, hrow, hlisted, hlisted', rfl⟩
        | other => cases hobject

/-- The ways to write a key of an object: plain or in quotes, and either of them
in brackets. -/
def Spells (written key : List Char) : Prop :=
  ∃ left right, (∀ c ∈ left, isQuote c = true) ∧ (∀ c ∈ right, isQuote c = true) ∧
    (written = left ++ key ++ right ∨ written = '[' :: (left ++ key ++ right ++ [']']))

theorem dropWhile_isQuote_eq_self {cs : List Char} (hplain : ∀ c ∈ cs, isQuote c = false) :
    cs.dropWhile isQuote = cs := by
  cases cs with
  | nil => rfl
  | cons c rest =>
      apply List.dropWhile_cons_of_neg
      simp [hplain c List.mem_cons_self]

theorem trimQuotes_eq_iff {cs key : List Char} (hne : key ≠ [])
    (hplain : ∀ c ∈ key, isQuote c = false) :
    trimQuotes cs = key ↔
      ∃ left right, (∀ c ∈ left, isQuote c = true) ∧ (∀ c ∈ right, isQuote c = true) ∧
        cs = left ++ key ++ right := by
  constructor
  · rintro rfl
    let inner := (cs.dropWhile isQuote).reverse
    refine ⟨cs.takeWhile isQuote, (inner.takeWhile isQuote).reverse, ?_, ?_, ?_⟩
    · intro c hc
      exact List.mem_takeWhile_imp hc
    · intro c hc
      exact List.mem_takeWhile_imp (List.mem_reverse.mp hc)
    · have hinner : trimQuotes cs ++ (inner.takeWhile isQuote).reverse = cs.dropWhile isQuote := by
        rw [trimQuotes, ← List.reverse_append, List.takeWhile_append_dropWhile,
          List.reverse_reverse]
      rw [List.append_assoc, hinner, List.takeWhile_append_dropWhile]
  · rintro ⟨left, right, hleft, hright, rfl⟩
    obtain ⟨first, rest, rfl⟩ := List.exists_cons_of_ne_nil hne
    have hfirst : (first :: rest ++ right).dropWhile isQuote = first :: rest ++ right := by
      apply List.dropWhile_cons_of_neg
      simp [hplain first List.mem_cons_self]
    have hright' : ∀ c ∈ right.reverse, isQuote c = true := by
      simpa using hright
    have hlast : (first :: rest).reverse.dropWhile isQuote = (first :: rest).reverse := by
      apply dropWhile_isQuote_eq_self
      intro c hc
      exact hplain c (List.mem_reverse.mp hc)
    rw [trimQuotes, List.append_assoc, List.dropWhile_append_of_pos hleft, hfirst,
      List.reverse_append, List.dropWhile_append_of_pos hright', hlast, List.reverse_reverse]

theorem stripBrackets_bracketed (inner : List Char) :
    stripBrackets ('[' :: (inner ++ [']'])) = inner := by
  simp [stripBrackets]

theorem stripBrackets_cases (cs : List Char) :
    (∃ inner, cs = '[' :: (inner ++ [']']) ∧ stripBrackets cs = inner) ∨ stripBrackets cs = cs := by
  unfold stripBrackets
  split
  · rename_i rest
    split
    · rename_i inner hreverse
      refine .inl ⟨inner.reverse, ?_, rfl⟩
      rw [← List.reverse_cons, ← hreverse, List.reverse_reverse]
    · exact .inr rfl
  · exact .inr rfl

theorem head_of_stripBrackets_ne {cs : List Char} (hne : stripBrackets cs ≠ cs) :
    cs.head? = some '[' := by
  rcases stripBrackets_cases cs with ⟨inner, rfl, -⟩ | hsame
  · rfl
  · exact absurd hsame hne

theorem key_eq_iff_spells {written key : List Char} (hne : key ≠ [])
    (hplain : ∀ c ∈ key, isQuote c = false) (hbracket : '[' ∉ key) :
    trimQuotes (stripBrackets written) = key ↔ Spells written key := by
  constructor
  · intro hkey
    obtain ⟨left, right, hleft, hright, hcut⟩ := (trimQuotes_eq_iff hne hplain).mp hkey
    refine ⟨left, right, hleft, hright, ?_⟩
    rcases stripBrackets_cases written with ⟨inner, hwritten, hinner⟩ | hsame
    · rw [hwritten, ← hcut, hinner]
      exact .inr rfl
    · exact .inl (hsame.symm.trans hcut)
  · rintro ⟨left, right, hleft, hright, hwritten⟩
    refine (trimQuotes_eq_iff hne hplain).mpr ⟨left, right, hleft, hright, ?_⟩
    rcases hwritten with rfl | rfl
    · -- a key without brackets does not start with one
      by_contra hstripped
      have hhead := head_of_stripBrackets_ne hstripped
      cases left with
      | nil =>
          obtain ⟨first, rest, rfl⟩ := List.exists_cons_of_ne_nil hne
          obtain rfl : first = '[' := by simpa using hhead
          exact hbracket List.mem_cons_self
      | cons c more =>
          obtain rfl : c = '[' := by simpa using hhead
          exact absurd (hleft '[' List.mem_cons_self) (by decide)
    · exact stripBrackets_bracketed _

/-- A member of an object has a key: it is a pair or a method under the key, or
the shorthand of it. -/
inductive HasKey (text : List Char) (member : Node) (key : List Char) : Prop
  | pair (hkind : member.kind = .pair) (name : Node) (hname : member.child? .key = some name)
      (hspells : Spells (name.text text) key)
  | method (hkind : member.kind = .method) (name : Node) (hname : member.child? .name = some name)
      (hspells : Spells (name.text text) key)
  | shorthand (hkind : member.kind = .shorthand) (htext : member.text text = key)

theorem memberKey?_eq_some_iff {text key : List Char} (member : Node) (hne : key ≠ [])
    (hplain : ∀ c ∈ key, isQuote c = false) (hbracket : '[' ∉ key) :
    member.memberKey? text = some key ↔ HasKey text member key := by
  have hspells : ∀ name : Node, name.key text = key ↔ Spells (name.text text) key :=
    fun name => key_eq_iff_spells hne hplain hbracket
  constructor
  · intro hkey
    unfold Node.memberKey? at hkey
    split at hkey
    · rename_i hkind
      obtain ⟨name, hname, hkey⟩ := Option.map_eq_some_iff.mp hkey
      exact .pair hkind name hname ((hspells name).mp hkey)
    · rename_i hkind
      obtain ⟨name, hname, hkey⟩ := Option.map_eq_some_iff.mp hkey
      exact .method hkind name hname ((hspells name).mp hkey)
    · rename_i hkind
      exact .shorthand hkind (Option.some.inj hkey)
    · cases hkey
  · rintro (⟨hkind, name, hname, hkey⟩ | ⟨hkind, name, hname, hkey⟩ | ⟨hkind, htext⟩)
    · simp [Node.memberKey?, hkind, hname, (hspells name).mpr hkey]
    · simp [Node.memberKey?, hkind, hname, (hspells name).mpr hkey]
    · simp [Node.memberKey?, hkind, htext]

theorem memberKey?_eq_timeoutKey_iff {text : List Char} (member : Node) {key : String}
    (hkey : key ∈ timeoutKeys) :
    member.memberKey? text = some key.toList ↔ HasKey text member key.toList := by
  have hkeys : ∀ key ∈ timeoutKeys, key.toList ≠ [] ∧
      (key.toList.all fun c => !isQuote c) = true ∧ key.toList.contains '[' = false := by
    decide
  obtain ⟨hne, hplain, hbracket⟩ := hkeys key hkey
  apply memberKey?_eq_some_iff member hne
  · simpa using hplain
  · simpa using hbracket

inductive Unbounded (text : List Char) : Option Node → Prop
  | absent : Unbounded text none
  | function (options : Node)
      (hkind : options.kind = .arrowFunction ∨ options.kind = .functionExpression) :
      Unbounded text (some options)
  | object (options : Node) (hkind : options.kind = .object)
      (hspread : ∀ member ∈ options.children, member.kind ≠ .spread)
      (hkeys : ∀ member ∈ options.children, ∀ key ∈ timeoutKeys,
        ¬HasKey text member key.toList) :
      Unbounded text (some options)

theorem leavesOpen_iff_unbounded (text : List Char) (options : Option Node) :
    LeavesOpen text options ↔ Unbounded text options := by
  constructor
  · intro hopen
    cases options with
    | none => exact .absent
    | some options =>
        rcases hopen with hkind | hkind | ⟨hkind, hspread, hkeys⟩
        · exact .function options (.inl hkind)
        · exact .function options (.inr hkind)
        · refine .object options hkind hspread ?_
          intro member hmember key hkey hhas
          apply hkeys member hmember key hkey
          exact (memberKey?_eq_timeoutKey_iff member hkey).mpr hhas
  · rintro (_ | ⟨options, hkind⟩ | ⟨options, hkind, hspread, hkeys⟩)
    · trivial
    · exact hkind.elim .inl fun hkind => .inr (.inl hkind)
    · refine .inr (.inr ⟨hkind, hspread, ?_⟩)
      intro member hmember key hkey hmemberKey
      apply hkeys member hmember key hkey
      exact (memberKey?_eq_timeoutKey_iff member hkey).mp hmemberKey

def optionsAmong : OptionsPlace → List Node → Option Node
  | .at index, arguments => arguments[index]?
  | .firstObjectOrSecond, [] => none
  | .firstObjectOrSecond, first :: rest =>
    if first.kind = .object then some first else rest.head?

theorem argument?_optionsIndex (call : Call) (place : OptionsPlace) :
    call.argument? (optionsIndex call place) = optionsAmong place call.arguments := by
  unfold optionsIndex Call.argument?
  cases place with
  | «at» index => rfl
  | firstObjectOrSecond =>
      cases call.arguments with
      | nil => rfl
      | cons first rest =>
          by_cases hobject : first.kind = .object
          · simp [optionsAmong, hobject]
          · simp [optionsAmong, hobject, List.head?_eq_getElem?]

/-- A call, on a line without the mark that silences checks, of a client that
does not bound the time of its request. -/
structure OpenCall (source : Source) (n : Node) (line : Nat) (library : String) : Prop where
  call : n.kind = .call
  starts : n.line source.text = line
  unmarked : isSuppressedAt (Text.lines source.text) line = false
  client : ∃ callee client, n.child? .callee = some callee ∧
    Calls (.ofNode source.text callee) client ∧ client.library = library ∧
    Unbounded source.text (optionsAmong client.options (Call.argumentsOf n))

def openCall? (source : Source) (n : Node) : Option (Nat × String) :=
  (Call.ofNode? source.text n).bind (offence? source.text (Text.lines source.text))

theorem openCall?_eq_some_iff (source : Source) (n : Node) (line : Nat) (library : String) :
    openCall? source n = some (line, library) ↔ OpenCall source n line library := by
  simp only [openCall?, Option.bind_eq_some_iff, offence?_eq_some_iff, classify?_eq_some_iff,
    leavesOpen_iff_unbounded, argument?_optionsIndex]
  constructor
  · rintro ⟨call, hcall, hmark, hline, hplain, client, hclient, hlibrary, hopen⟩
    unfold Call.ofNode? at hcall
    split at hcall
    · rename_i hkind
      obtain ⟨callee, hcallee, rfl⟩ := Option.map_eq_some_iff.mp hcall
      refine ⟨?_, hline, hmark, callee, client, hcallee, hclient, hlibrary, hopen⟩
      simpa [show n.kind ≠ .construct by simpa using hplain] using hkind
    · cases hcall
  · rintro ⟨hkind, hline, hmark, callee, client, hcallee, hclient, hlibrary, hopen⟩
    refine ⟨⟨n, .ofNode source.text callee, Call.argumentsOf n, false, n.line source.text⟩, ?_,
      hmark, hline, rfl, client, hclient, hlibrary, hopen⟩
    simp [Call.ofNode?, hkind, hcallee]

structure IsFirstOpen (source : Source) (place line : Nat) (library : String) : Prop where
  opened : ∃ n, source.root.preorder[place]? = some n ∧ OpenCall source n line library
  first : ∀ earlier < place, ∀ n, source.root.preorder[earlier]? = some n →
    ¬OpenCall source n line library

def firstOpenCalls (source : Source) : List (Nat × Nat × String) :=
  firstOfEach Prod.snd (numbered (openCall? source) source.root.preorder)

theorem firstOpenCalls_pairwise (source : Source) :
    (firstOpenCalls source).Pairwise fun a b => a.1 < b.1 := by
  apply List.Pairwise.sublist (firstOfEachFrom_sublist _ _ _)
  exact numbered_pairwise (openCall? source) source.root.preorder

theorem mem_firstOpenCalls_iff (source : Source) (place line : Nat) (library : String) :
    (place, line, library) ∈ firstOpenCalls source ↔ IsFirstOpen source place line library := by
  rw [firstOpenCalls, mem_firstOfEach_numbered_iff]
  simp only [ne_eq, openCall?_eq_some_iff]
  exact ⟨fun ⟨hopened, hfirst⟩ => ⟨hopened, hfirst⟩, fun ⟨hopened, hfirst⟩ => ⟨hopened, hfirst⟩⟩

def reports (path : Path) (sites : List (Nat × Nat × String)) : List Finding :=
  sites.map fun site => report path site.2.1 site.2.2

theorem inScript_eq_reports (path : Path) (source : Source) :
    inScript path (Text.lines source.text) source = reports path (firstOpenCalls source) := by
  rw [inScript, Source.calls, walk_eq_preorder, List.filterMap_filterMap, reports, firstOpenCalls]
  have hfirsts := firstOfEach_filterMap (openCall? source) source.root.preorder
  unfold openCall? at hfirsts ⊢
  rw [hfirsts, List.map_map]
  rfl

theorem text_of_script? {ctx : FileContext} {source : Source}
    (hscript : ctx.script? = some source) : source.text = ctx.content.toList := by
  unfold FileContext.script? Source.ofFile at hscript
  split at hscript
  · cases hscript
  · split at hscript
    · obtain rfl := Option.some.inj hscript
      rfl
    · cases hscript

theorem detect_eq_inScript {ctx : FileContext} {source : Source}
    (hscript : ctx.script? = some source) :
    detect ctx = inScript ctx.path (Text.lines source.text) source := by
  have hlines : ctx.lines = Text.lines source.text :=
    congrArg Text.lines (text_of_script? hscript).symm
  have hdetect : detect ctx = (ctx.script?.map (inScript ctx.path ctx.lines)).getD [] := by
    unfold detect
    cases ctx.script? <;> rfl
  rw [hdetect, hscript, hlines, Option.map_some, Option.getD_some]

/-- Options that are neither an object nor a function tell nothing. -/
theorem OpenCall.kind_of_options {source : Source} {n callee options : Node} {line : Nat}
    {library : String} {client : ClientCall} (hopen : OpenCall source n line library)
    (hcallee : n.child? .callee = some callee)
    (hclient : Calls (.ofNode source.text callee) client)
    (hoptions : optionsAmong client.options (Call.argumentsOf n) = some options) :
    options.kind ∈ [.object, .arrowFunction, .functionExpression] := by
  obtain ⟨callee', client', hcallee', hclient', -, hunbounded⟩ := hopen.client
  obtain rfl := Option.some.inj (hcallee.symm.trans hcallee')
  rw [← classify?_eq_some_iff] at hclient hclient'
  obtain rfl := Option.some.inj (hclient.symm.trans hclient')
  rw [hoptions] at hunbounded
  cases hunbounded with
  | function _ hkind => rcases hkind with hkind | hkind <;> simp [hkind]
  | object _ hkind => simp [hkind]

/-- The findings of a script are those of the first open call of each line and
library, in pre-order of the tree. A call with options that are neither an
object nor a function is never among them. -/
theorem first_open_calls_reported (path : Path) (source : Source) :
    ∃ sites : List (Nat × Nat × String),
      sites.Pairwise (fun a b => a.1 < b.1) ∧
      (∀ place line library,
        (place, line, library) ∈ sites ↔ IsFirstOpen source place line library) ∧
      inScript path (Text.lines source.text) source = reports path sites ∧
      (∀ ctx : FileContext, ctx.path = path → ctx.script? = some source →
        detect ctx = reports path sites) ∧
      ∀ place n callee client options, source.root.preorder[place]? = some n →
        n.child? .callee = some callee → Calls (.ofNode source.text callee) client →
        optionsAmong client.options (Call.argumentsOf n) = some options →
        options.kind ∉ [.object, .arrowFunction, .functionExpression] →
        ∀ line library, (place, line, library) ∉ sites := by
  refine ⟨firstOpenCalls source, firstOpenCalls_pairwise source, mem_firstOpenCalls_iff source,
    inScript_eq_reports path source, ?_, ?_⟩
  · rintro ctx rfl hscript
    rw [detect_eq_inScript hscript, inScript_eq_reports]
  · intro place n callee client options hnode hcallee hclient hoptions hkind line library hsite
    obtain ⟨⟨n', hnode', hopen⟩, -⟩ := (mem_firstOpenCalls_iff source place line library).mp hsite
    obtain rfl := Option.some.inj (hnode.symm.trans hnode')
    exact hkind (hopen.kind_of_options hcallee hclient hoptions)

end WebAudit.HttpClient
