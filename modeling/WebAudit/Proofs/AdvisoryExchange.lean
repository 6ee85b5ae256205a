import Mathlib.Data.List.Perm.Basic
import Mathlib.Logic.Relation
import WebAudit.Advisory.Client
import WebAudit.Proofs.Accounting

/-!
What passes between a client and an advisory server. The chunks of queries are
posted one after the other, and the first reply that gives no identifiers for
its chunk ends the exchange. If none does, the identifiers for a query stand at
its place in the answer to its chunk. Each of them is then asked for once. The
requests for records are under way together, up to a limit, and may be answered
in any order; the records are found again by their identifiers, so the order
does not show. A record that cannot be had costs its details and nothing else.
-/

namespace WebAudit.Client

open Resolution

def IsFailure (status : Nat) : Prop := 400 ≤ status ∧ status < 600

instance (status : Nat) : Decidable (IsFailure status) :=
  inferInstanceAs (Decidable (_ ∧ _))

/-- Why a reply gives no identifiers for a chunk: there is none, it tells of a
failure, it cannot be decoded, or it does not fit the chunk. -/
inductive Refuses (chunk : List Query) : Reply → LookupError → Prop
  | unreachable (reason : String) : Refuses chunk (.unreachable reason) (.network reason)
  | failed (status : Nat) (text : String) (hstatus : IsFailure status) :
      Refuses chunk (.answer status text) (.http status)
  | undecodable (status : Nat) (text message : String) (hstatus : ¬IsFailure status)
      (hread : readAnswer text = .error (.decode message)) :
      Refuses chunk (.answer status text) (.decode message)
  | unfit (status : Nat) (text : String) (answer : List (List String))
      (hstatus : ¬IsFailure status) (hread : readAnswer text = .ok answer)
      (hlength : answer.length ≠ chunk.length) :
      Refuses chunk (.answer status text)
        (.integrity s!"OSV returned {answer.length} results for {chunk.length} queries")

section Reading

private theorem bind_eq_error {ε α β : Type} {x : Except ε α} {f : α → Except ε β} {e : ε}
    (h : (x >>= f) = .error e) : x = .error e ∨ ∃ a, x = .ok a ∧ f a = .error e := by
  cases x with
  | error e' =>
      cases h
      exact Or.inl rfl
  | ok a => exact Or.inr ⟨a, rfl, h⟩

private theorem mapM_eq_error {ε α β : Type} {f : α → Except ε β} {items : List α} {e : ε}
    (h : items.mapM f = .error e) : ∃ a ∈ items, f a = .error e := by
  induction items with
  | nil => cases h
  | cons a rest ih =>
      rw [List.mapM_cons] at h
      rcases bind_eq_error h with hfirst | ⟨b, -, hrest⟩
      · exact ⟨a, List.mem_cons_self, hfirst⟩
      · rcases bind_eq_error hrest with hlater | ⟨_, _, hpure⟩
        · obtain ⟨c, hc, hfails⟩ := ih hlater
          exact ⟨c, List.mem_cons_of_mem a hc, hfails⟩
        · cases hpure

theorem fieldOf_error {name : String} {record : Json} {e : LookupError}
    (h : fieldOf name record = .error e) : ∃ message, e = .decode message := by
  unfold fieldOf at h
  repeat' split at h
  all_goals cases h
  all_goals exact ⟨_, rfl⟩

theorem listField_error {name : String} {record : Json} {e : LookupError}
    (h : listField name record = .error e) : ∃ message, e = .decode message := by
  rcases bind_eq_error h with hfield | ⟨value, -, hvalue⟩
  · exact fieldOf_error hfield
  · split at hvalue <;> cases hvalue
    exact ⟨_, rfl⟩

theorem referenceId_error {reference : Json} {e : LookupError}
    (h : referenceId reference = .error e) : ∃ message, e = .decode message := by
  rcases bind_eq_error h with hfield | ⟨value, -, hvalue⟩
  · exact fieldOf_error hfield
  · split at hvalue <;> cases hvalue <;> exact ⟨_, rfl⟩

/-- An answer that cannot be read is one that cannot be decoded. -/
theorem readAnswer_error {text : String} {e : LookupError} (h : readAnswer text = .error e) :
    ∃ message, e = .decode message := by
  unfold readAnswer at h
  cases hjson : Json.read text with
  | error cause =>
      rw [hjson] at h
      cases h
      exact ⟨_, rfl⟩
  | ok value =>
      rw [hjson] at h
      change (listField "results" value >>= _) = _ at h
      rcases bind_eq_error h with hresults | ⟨results, -, hresults⟩
      · exact listField_error hresults
      · obtain ⟨result, -, hresult⟩ := mapM_eq_error hresults
        rcases bind_eq_error hresult with hvulns | ⟨references, -, hreferences⟩
        · exact listField_error hvulns
        · obtain ⟨reference, -, hreference⟩ := mapM_eq_error hreferences
          exact referenceId_error hreference

end Reading

theorem body_answer (status : Nat) (text : String) :
    body (.answer status text) = if IsFailure status then .error (.http status) else .ok text := by
  simp only [body, Bool.and_eq_true, decide_eq_true_eq]
  rfl

section Chunk

variable {chunk : List Query} {status : Nat} {text : String}

theorem chunkIds_of_failure (hstatus : IsFailure status) :
    chunkIds chunk (.answer status text) = .error (.http status) := by
  rw [chunkIds, body_answer, if_pos hstatus]
  rfl

theorem chunkIds_of_undecodable {e : LookupError} (hstatus : ¬IsFailure status)
    (hread : readAnswer text = .error e) : chunkIds chunk (.answer status text) = .error e := by
  rw [chunkIds, body_answer, if_neg hstatus]
  simp only [bind, Except.bind, hread]

theorem chunkIds_of_decoded {answer : List (List String)} (hstatus : ¬IsFailure status)
    (hread : readAnswer text = .ok answer) :
    chunkIds chunk (.answer status text) =
      if answer.length = chunk.length then .ok answer
      else
        .error (.integrity
          s!"OSV returned {answer.length} results for {chunk.length} queries") := by
  rw [chunkIds, body_answer, if_neg hstatus]
  simp only [bind, Except.bind, hread, beq_iff_eq]

end Chunk

/-- The identifiers of a chunk are what the reply gives, one list for each
query. -/
theorem chunkIds_eq_ok_iff (chunk : List Query) (reply : Reply) (ids : List (List String)) :
    chunkIds chunk reply = .ok ids ↔
      ∃ status text, reply = .answer status text ∧ ¬IsFailure status ∧
        readAnswer text = .ok ids ∧ ids.length = chunk.length := by
  constructor
  · intro h
    cases reply with
    | unreachable reason => cases h
    | answer status text =>
        by_cases hstatus : IsFailure status
        · rw [chunkIds_of_failure hstatus] at h
          cases h
        cases hread : readAnswer text with
        | error e =>
            rw [chunkIds_of_undecodable hstatus hread] at h
            cases h
        | ok answer =>
            rw [chunkIds_of_decoded hstatus hread] at h
            split at h
            · rename_i hlength
              cases h
              exact ⟨status, text, rfl, hstatus, hread, hlength⟩
            · cases h
  · rintro ⟨status, text, rfl, hstatus, hread, hlength⟩
    rw [chunkIds_of_decoded hstatus hread, if_pos hlength]

/-- A chunk has no identifiers exactly when its reply refuses them. -/
theorem chunkIds_eq_error_iff (chunk : List Query) (reply : Reply) (e : LookupError) :
    chunkIds chunk reply = .error e ↔ Refuses chunk reply e := by
  constructor
  · intro h
    cases reply with
    | unreachable reason =>
        cases h
        exact .unreachable reason
    | answer status text =>
        by_cases hstatus : IsFailure status
        · rw [chunkIds_of_failure hstatus] at h
          cases h
          exact .failed status text hstatus
        cases hread : readAnswer text with
        | error e' =>
            rw [chunkIds_of_undecodable hstatus hread] at h
            obtain ⟨message, rfl⟩ := readAnswer_error hread
            cases h
            exact .undecodable status text message hstatus hread
        | ok answer =>
            rw [chunkIds_of_decoded hstatus hread] at h
            split at h
            · cases h
            · rename_i hlength
              cases h
              exact .unfit status text answer hstatus hread hlength
  · intro h
    cases h with
    | unreachable reason => rfl
    | failed status text hstatus => exact chunkIds_of_failure hstatus
    | undecodable status text message hstatus hread =>
        exact chunkIds_of_undecodable hstatus hread
    | unfit status text answer hstatus hread hlength =>
        rw [chunkIds_of_decoded hstatus hread, if_neg hlength]

inductive Answered (server : AdvisoryServer) :
    Nat → List (List Query) → List (List (List String)) → Prop
  | nil (start : Nat) : Answered server start [] []
  | cons {start : Nat} {chunk : List Query} {ids : List (List String)}
      {rest : List (List Query)} {answers : List (List (List String))}
      (hids : chunkIds chunk (server.post start (requestBody chunk)) = .ok ids)
      (hrest : Answered server (start + 1) rest answers) :
      Answered server start (chunk :: rest) (ids :: answers)

section Posts

variable {server : AdvisoryServer} {start : Nat}

theorem delivered_of_chunkIds {chunk : List Query} {reply : Reply} {ids : List (List String)}
    (hids : chunkIds chunk reply = .ok ids) : Reply.delivered reply := by
  obtain ⟨status, text, rfl, -⟩ := (chunkIds_eq_ok_iff chunk reply ids).mp hids
  rfl

/-- A run goes on behind chunks that are answered, with their identifiers in
hand and their bodies posted. -/
theorem allIds_append {before : List (List Query)} {answers : List (List (List String))}
    (hanswered : Answered server start before answers) (rest : List (List Query)) :
    allIds server start (before ++ rest) =
      ((allIds server (start + before.length) rest).1.map (answers.flatten ++ ·),
        before.map requestBody ++ (allIds server (start + before.length) rest).2) := by
  induction hanswered with
  | nil start =>
      rw [List.nil_append, List.length_nil, Nat.add_zero]
      cases hrest : allIds server start rest with
      | mk later posts => cases later <;> rfl
  | @cons start chunk ids more answers hids hmore ih =>
      have hdelivered := delivered_of_chunkIds hids
      have hplace : start + 1 + more.length = start + (chunk :: more).length := by
        rw [List.length_cons]
        omega
      rw [List.cons_append, allIds]
      simp only [hids, hdelivered, if_true, ih, hplace]
      cases (allIds server (start + (chunk :: more).length) rest).1 with
      | error e => simp [Except.map]
      | ok later => simp [Except.map]

/-- Either all chunks are answered, or there is a first one that is refused. -/
theorem answered_or_refused (server : AdvisoryServer) (start : Nat)
    (chunks : List (List Query)) :
    (∃ answers, Answered server start chunks answers) ∨
      ∃ before chunk after answers e, chunks = before ++ chunk :: after ∧
        Answered server start before answers ∧
        Refuses chunk (server.post (start + before.length) (requestBody chunk)) e := by
  induction chunks generalizing start with
  | nil => exact Or.inl ⟨[], .nil start⟩
  | cons chunk rest ih =>
      cases hids : chunkIds chunk (server.post start (requestBody chunk)) with
      | error e =>
          refine Or.inr ⟨[], chunk, rest, [], e, rfl, .nil start, ?_⟩
          exact (chunkIds_eq_error_iff _ _ _).mp hids
      | ok ids =>
          rcases ih (start + 1) with ⟨answers, hanswered⟩ |
            ⟨before, refused, after, answers, e, rfl, hanswered, hrefuses⟩
          · exact Or.inl ⟨ids :: answers, .cons hids hanswered⟩
          · refine Or.inr ⟨chunk :: before, refused, after, ids :: answers, e, rfl,
              .cons hids hanswered, ?_⟩
            rw [List.length_cons]
            have hplace : start + (before.length + 1) = start + 1 + before.length := by omega
            rw [hplace]
            exact hrefuses

end Posts

section Places

/-- In pieces of one length, but for a shorter one at the end, the place of an
item tells its piece and its place there. -/
theorem flatten_getElem?_of_full {α : Type} {n : Nat} (hn : 0 < n) {pieces : List (List α)}
    (hfull : ∀ k piece, pieces[k]? = some piece →
      piece.length ≤ n ∧ (k + 1 < pieces.length → piece.length = n)) (i : Nat) :
    pieces.flatten[i]? = (pieces[i / n]?).bind fun piece => piece[i % n]? := by
  induction pieces generalizing i with
  | nil => simp
  | cons piece rest ih =>
      obtain ⟨hshort, hlength⟩ := hfull 0 piece rfl
      have hrest : ∀ k piece, rest[k]? = some piece →
          piece.length ≤ n ∧ (k + 1 < rest.length → piece.length = n) := by
        intro k piece hpiece
        obtain ⟨hle, heq⟩ := hfull (k + 1) piece hpiece
        exact ⟨hle, fun hlater => heq (by simpa using hlater)⟩
      rw [List.flatten_cons, List.getElem?_append]
      by_cases hi : i < n
      · rw [Nat.div_eq_of_lt hi, Nat.mod_eq_of_lt hi, List.getElem?_cons_zero, Option.bind_some]
        split
        · rfl
        · rename_i hbehind
          -- a short piece is the last one
          have hlast : rest = [] := by
            by_contra hne
            have hpos := List.length_pos_of_ne_nil hne
            have hlen := hlength (by simp only [List.length_cons]; omega)
            omega
          simp [hlast, List.getElem?_eq_none (Nat.le_of_not_lt hbehind)]
      · have hin : n ≤ i := Nat.le_of_not_lt hi
        rw [if_neg (by omega), Nat.div_eq_sub_div hn hin, Nat.mod_eq_sub_mod hin,
          List.getElem?_cons_succ, ← ih hrest]
        by_cases hmore : rest = []
        · simp [hmore]
        · have hpos := List.length_pos_of_ne_nil hmore
          rw [hlength (by simp only [List.length_cons]; omega)]

/-- Answers stand at the places of their chunks, and are as long. -/
theorem Answered.getElem? {server : AdvisoryServer} {start : Nat} {chunks : List (List Query)}
    {answers : List (List (List String))} (hanswered : Answered server start chunks answers) :
    answers.length = chunks.length ∧
      ∀ k ids, answers[k]? = some ids → ∃ chunk, chunks[k]? = some chunk ∧
        chunkIds chunk (server.post (start + k) (requestBody chunk)) = .ok ids := by
  induction hanswered with
  | nil start => simp
  | @cons start chunk ids rest answers hids hrest ih =>
      obtain ⟨hlength, hplaces⟩ := ih
      refine ⟨by simp [hlength], ?_⟩
      intro k ids' hplace
      cases k with
      | zero =>
          obtain rfl := Option.some.inj hplace
          exact ⟨chunk, rfl, hids⟩
      | succ k =>
          obtain ⟨chunk', hchunk, hids'⟩ := hplaces k ids' hplace
          refine ⟨chunk', hchunk, ?_⟩
          have hnumber : start + (k + 1) = start + 1 + k := by omega
          rw [hnumber]
          exact hids'

theorem Answered.flatten_length {server : AdvisoryServer} {start : Nat}
    {chunks : List (List Query)} {answers : List (List (List String))}
    (hanswered : Answered server start chunks answers) :
    answers.flatten.length = chunks.flatten.length := by
  induction hanswered with
  | nil start => rfl
  | cons hids hrest ih =>
      obtain ⟨-, -, -, -, -, hlength⟩ := (chunkIds_eq_ok_iff _ _ _).mp hids
      rw [List.flatten_cons, List.flatten_cons, List.length_append, List.length_append, hlength,
        ih]

/-- The identifiers that a server returns for the query at a place: those at its
place in the answer to its chunk. -/
def returned? (server : AdvisoryServer) (size : Nat) (queries : List Query) (i : Nat) :
    Option (List String) :=
  let number := i / max size 1
  (batches size queries)[number]?.bind fun chunk =>
    match server.post number (requestBody chunk) with
    | .answer _ text => (readAnswer text).toOption.bind fun answer => answer[i % max size 1]?
    | .unreachable _ => none

theorem batches_max (size : Nat) {α : Type} (items : List α) :
    batches (max size 1) items = batches size items := by
  simp [batches]

/-- If all chunks are answered, the answers one after the other hold what is
returned for the queries, place by place. -/
theorem Answered.returned? {server : AdvisoryServer} {size : Nat} {queries : List Query}
    {answers : List (List (List String))}
    (hanswered : Answered server 0 (batches size queries) answers) (i : Nat) :
    Client.returned? server size queries i = answers.flatten[i]? := by
  obtain ⟨hlength, hplaces⟩ := hanswered.getElem?
  have hfull : ∀ k ids, answers[k]? = some ids →
      ids.length ≤ max size 1 ∧ (k + 1 < answers.length → ids.length = max size 1) := by
    intro k ids hids
    obtain ⟨chunk, hchunk, hanswer⟩ := hplaces k ids hids
    obtain ⟨-, -, -, -, -, hsame⟩ := (chunkIds_eq_ok_iff _ _ _).mp hanswer
    rw [← batches_max] at hchunk hlength
    obtain ⟨-, hle, heq⟩ := batches_length (max size 1) queries (by omega) hchunk
    rw [hsame, hlength]
    exact ⟨hle, heq⟩
  rw [flatten_getElem?_of_full (by omega) hfull, Client.returned?]
  cases hids : answers[i / max size 1]? with
  | none =>
      rw [List.getElem?_eq_none_iff, hlength] at hids
      rw [List.getElem?_eq_none_iff.mpr hids]
      rfl
  | some ids =>
      obtain ⟨chunk, hchunk, hanswer⟩ := hplaces _ ids hids
      rw [Nat.zero_add] at hanswer
      obtain ⟨status, text, hreply, -, hread, -⟩ := (chunkIds_eq_ok_iff _ _ _).mp hanswer
      simp only [hchunk, hreply, hread, Option.bind_some]
      rfl

end Places

section Records

/-- What a client knows about an identifier: the record that the answer to its
request holds, or the identifier only if the request fails or the answer holds
no record. -/
inductive Describes (server : AdvisoryServer) (id : String) : Advisory → Prop
  | record {status : Nat} {text : String} {value : Json} {a : Advisory}
      (hreply : server.record id = .answer status text) (hstatus : ¬IsFailure status)
      (hjson : Json.parse text = .ok value) (hrecord : Advisory.ofJson? value = some a) :
      Describes server id a
  | bare
      (hnone : ∀ status text value, server.record id = .answer status text →
        ¬IsFailure status → Json.parse text = .ok value → Advisory.ofJson? value = none) :
      Describes server id ⟨id, [], "", none, []⟩

theorem fetch_of_answer {server : AdvisoryServer} {id text : String} {status : Nat}
    (hreply : server.record id = .answer status text) (hstatus : ¬IsFailure status) :
    fetch server id =
      ((Json.parse text).toOption.bind Advisory.ofJson?).getD (.bare id) := by
  rw [fetch, hreply, body_answer, if_neg hstatus]
  cases hjson : Json.parse text <;> simp [hjson, Except.toOption]

/-- What is fetched describes the identifier. -/
theorem fetch_describes (server : AdvisoryServer) (id : String) :
    Describes server id (fetch server id) := by
  cases hreply : server.record id with
  | unreachable reason =>
      have hfetch : fetch server id = .bare id := by
        rw [fetch, hreply]
        rfl
      rw [hfetch]
      exact .bare fun status text value hanswer => by simp [hreply] at hanswer
  | answer status text =>
      by_cases hstatus : IsFailure status
      · have hfetch : fetch server id = .bare id := by
          rw [fetch, hreply, body_answer, if_pos hstatus]
          rfl
        rw [hfetch]
        refine .bare fun status' text' value hanswer hgood => ?_
        cases hreply.symm.trans hanswer
        exact absurd hstatus hgood
      rw [fetch_of_answer hreply hstatus]
      cases hrecord : (Json.parse text).toOption.bind Advisory.ofJson? with
      | none =>
          refine .bare fun status' text' value hanswer _ hjson => ?_
          cases hreply.symm.trans hanswer
          simpa [hjson, Except.toOption] using hrecord
      | some a =>
          obtain ⟨value, hvalue, ha⟩ := Option.bind_eq_some_iff.mp hrecord
          refine .record hreply hstatus ?_ ha
          cases hjson : Json.parse text with
          | error cause => simp [hjson, Except.toOption] at hvalue
          | ok value' =>
              rw [hjson] at hvalue
              exact congrArg Except.ok (Option.some.inj hvalue)

theorem mem_requestedIds_iff (ids : List (List String)) (id : String) :
    id ∈ requestedIds ids ↔ id ∈ ids.flatten := by
  rw [requestedIds, List.mem_mergeSort, List.mem_eraseDups]

theorem requestedIds_nodup (ids : List (List String)) : (requestedIds ids).Nodup := by
  have hnodup : ids.flatten.eraseDups.Nodup := by
    have hkeys := firstOfEachFrom_keys_nodup id [] ids.flatten
    rw [map_key_firstOfEachFrom, List.filter_eq_self.mpr (by simp), List.map_id] at hkeys
    exact hkeys
  exact (List.mergeSort_perm _ _).nodup_iff.mpr hnodup

/-- Records that arrived are those of their identifiers. -/
def Genuine (server : AdvisoryServer) (arrived : Arrivals) : Prop :=
  ∀ p ∈ arrived, p.2 = fetch server p.1

theorem Genuine.lookup {server : AdvisoryServer} {arrived : Arrivals}
    (hgenuine : Genuine server arrived) {id : String} (hid : id ∈ arrived.map Prod.fst) :
    arrived.lookup id = some (fetch server id) := by
  induction arrived with
  | nil => simp at hid
  | cons first rest ih =>
      obtain ⟨hfirst, hrest⟩ := List.forall_mem_cons.mp hgenuine
      rw [List.lookup_cons]
      by_cases hsame : id = first.1
      · simp [hsame, hfirst]
      · have hlater : id ∈ rest.map Prod.fst := by simpa [hsame] using hid
        simp only [beq_eq_false_iff_ne.mpr hsame, ih hrest hlater]

/-- Where all identifiers have arrived, each list of identifiers becomes the
list of their records, in order and with repetitions. -/
theorem assemble_eq {server : AdvisoryServer} {arrived : Arrivals} {ids : List (List String)}
    (hgenuine : Genuine server arrived)
    (hall : ∀ id ∈ ids.flatten, id ∈ arrived.map Prod.fst) :
    assemble arrived ids = ids.map fun own => own.map (fetch server) := by
  rw [assemble]
  apply List.map_congr_left
  intro own hown
  rw [List.filterMap_eq_map_iff_forall_eq_some]
  intro id hid
  exact hgenuine.lookup (hall id (List.mem_flatten.mpr ⟨own, hown, hid⟩))

end Records

/-- The requests for records: the identifiers that wait for their turn, those
that are asked for and not yet answered, and the records that arrived. -/
structure Fetching where
  waiting : List String
  pending : List String
  arrived : Arrivals

namespace Fetching

/-- A step of the requests when at most `limit` of them are under way: the next
identifier is asked for if there is room, or any one that is under way is
answered. -/
inductive Step (server : AdvisoryServer) (limit : Nat) : Fetching → Fetching → Prop
  | send {id : String} {waiting pending : List String} {arrived : Arrivals}
      (hroom : pending.length < limit) :
      Step server limit ⟨id :: waiting, pending, arrived⟩ ⟨waiting, pending ++ [id], arrived⟩
  | arrive {id : String} {waiting before after : List String} {arrived : Arrivals} :
      Step server limit ⟨waiting, before ++ id :: after, arrived⟩
        ⟨waiting, before ++ after, arrived ++ [(id, fetch server id)]⟩

abbrev Steps (server : AdvisoryServer) (limit : Nat) : Fetching → Fetching → Prop :=
  Relation.ReflTransGen (Step server limit)

/-- A run that asks for identifiers until all records have arrived. -/
def Completes (server : AdvisoryServer) (limit : Nat) (wanted : List String)
    (arrived : Arrivals) : Prop :=
  Steps server limit ⟨wanted, [], []⟩ ⟨[], [], arrived⟩

def all (s : Fetching) : List String := s.waiting ++ (s.pending ++ s.arrived.map Prod.fst)

variable {server : AdvisoryServer} {limit : Nat}

/-- A step neither loses nor repeats an identifier, keeps to the limit, and
brings genuine records. -/
theorem Step.preserves {s t : Fetching} (hstep : Step server limit s t) :
    t.all.Perm s.all ∧ (s.pending.length ≤ limit → t.pending.length ≤ limit) ∧
      (Genuine server s.arrived → Genuine server t.arrived) := by
  cases hstep with
  | @send id waiting pending arrived hroom =>
      refine ⟨?_, fun _ => ?_, fun hgenuine => hgenuine⟩
      · simp only [all, List.append_assoc, List.cons_append, List.nil_append]
        rw [← List.append_assoc, ← List.append_assoc]
        exact List.perm_middle
      · simp only [List.length_append, List.length_singleton]
        omega
  | @arrive id waiting before after arrived =>
      refine ⟨?_, fun hlimit => ?_, fun hgenuine => ?_⟩
      · simp only [all, List.map_append, List.map_cons, List.map_nil]
        apply List.Perm.append_left
        rw [List.append_assoc, List.append_assoc, List.cons_append]
        apply List.Perm.append_left
        rw [← List.append_assoc]
        exact List.perm_append_singleton id _
      · simp only [List.length_append, List.length_cons] at hlimit ⊢
        omega
      · intro p hp
        rcases List.mem_append.mp hp with hbefore | hnew
        · exact hgenuine p hbefore
        · obtain rfl := List.mem_singleton.mp hnew
          rfl

theorem Steps.preserves {s t : Fetching} (hsteps : Steps server limit s t) :
    t.all.Perm s.all ∧ (s.pending.length ≤ limit → t.pending.length ≤ limit) ∧
      (Genuine server s.arrived → Genuine server t.arrived) := by
  induction hsteps with
  | refl => exact ⟨List.Perm.refl _, id, id⟩
  | tail _ hstep ih =>
      obtain ⟨hall, hpending, hgenuine⟩ := hstep.preserves
      exact ⟨hall.trans ih.1, hpending ∘ ih.2.1, hgenuine ∘ ih.2.2⟩

/-- A run that completes brings each identifier once, with its record. -/
theorem Completes.arrivals {wanted : List String} {arrived : Arrivals}
    (hrun : Completes server limit wanted arrived) :
    (arrived.map Prod.fst).Perm wanted ∧ Genuine server arrived := by
  obtain ⟨hall, -, hgenuine⟩ := Steps.preserves hrun
  refine ⟨by simpa [all] using hall, hgenuine ?_⟩
  exact fun p hp => absurd hp List.not_mem_nil

/-- With room for one request, no state is a dead end. -/
theorem can_complete (hlimit : 0 < limit) (s : Fetching) :
    ∃ arrived, Steps server limit s ⟨[], [], arrived⟩ := by
  obtain ⟨waiting, pending, arrived⟩ := s
  -- requests that are under way are answered first, so that there is room again
  induction pending generalizing arrived with
  | cons id after ih =>
      obtain ⟨arrived', hrest⟩ := ih (arrived ++ [(id, fetch server id)])
      exact ⟨arrived', .head (@Step.arrive _ _ id waiting [] after arrived) hrest⟩
  | nil =>
      induction waiting generalizing arrived with
      | nil => exact ⟨arrived, .refl⟩
      | cons id rest ih =>
          obtain ⟨arrived', hrest⟩ := ih (arrived ++ [(id, fetch server id)])
          have harrives := @Step.arrive server limit id rest [] [] arrived
          exact ⟨arrived', .head (.send hlimit) (.head harrives hrest)⟩

end Fetching

structure FirstRefusal (server : AdvisoryServer) (chunks : List (List Query)) (k : Nat)
    (chunk : List Query) (e : LookupError) : Prop where
  place : chunks[k]? = some chunk
  refused : Refuses chunk (server.post k (requestBody chunk)) e
  first : ∀ j chunk' e', j < k → chunks[j]? = some chunk' →
    ¬Refuses chunk' (server.post j (requestBody chunk')) e'

theorem FirstRefusal.answered {server : AdvisoryServer} {chunks : List (List Query)} {k : Nat}
    {chunk : List Query} {e : LookupError} (hrefusal : FirstRefusal server chunks k chunk e) :
    ∃ answers, Answered server 0 (chunks.take k) answers := by
  rcases answered_or_refused server 0 (chunks.take k) with hanswered |
    ⟨before, chunk', after, -, e', hchunks, -, hrefuses⟩
  · exact hanswered
  · have hplace : (chunks.take k)[before.length]? = some chunk' := by
      rw [hchunks]
      simp
    rw [List.getElem?_take] at hplace
    split at hplace
    · rename_i hbefore
      rw [Nat.zero_add] at hrefuses
      exact absurd hrefuses (hrefusal.first _ _ _ hbefore hplace)
    · cases hplace

section Exchange

variable {server : AdvisoryServer} {size : Nat} {queries : List Query}

/-- An exchange in which all chunks are answered. -/
theorem exchange_of_answered {answers : List (List (List String))}
    (hanswered : Answered server 0 (batches size queries) answers) :
    exchange server size queries =
      ⟨.ok (answers.flatten.map fun own => own.map (fetch server)),
        (batches size queries).map requestBody,
        (requestedIds answers.flatten).filter fun id => Reply.delivered (server.record id)⟩ := by
  have hids := allIds_append hanswered []
  simp only [List.append_nil, allIds, Except.map] at hids
  have hgenuine : Genuine server
      ((requestedIds answers.flatten).map fun id => (id, fetch server id)) := by
    intro p hp
    obtain ⟨id, -, rfl⟩ := List.mem_map.mp hp
    rfl
  have hall : ∀ id ∈ answers.flatten.flatten, id ∈
      ((requestedIds answers.flatten).map fun id => (id, fetch server id)).map Prod.fst := by
    intro id hid
    simpa [List.map_map] using (mem_requestedIds_iff _ id).mpr hid
  simp only [exchange, hids, assemble_eq hgenuine hall]

/-- An exchange that a reply ends. -/
theorem exchange_of_refusal {k : Nat} {chunk : List Query} {e : LookupError}
    (hrefusal : FirstRefusal server (batches size queries) k chunk e) :
    exchange server size queries =
      ⟨.error e,
        ((batches size queries).take k).map requestBody ++
          if Reply.delivered (server.post k (requestBody chunk)) then [requestBody chunk] else [],
        []⟩ := by
  obtain ⟨answers, hanswered⟩ := hrefusal.answered
  have hbound : k < (batches size queries).length :=
    (List.getElem?_eq_some_iff.mp hrefusal.place).1
  have hchunks : batches size queries =
      (batches size queries).take k ++ chunk :: (batches size queries).drop (k + 1) := by
    have hdrop := List.drop_eq_getElem_cons hbound
    rw [(List.getElem?_eq_some_iff.mp hrefusal.place).2] at hdrop
    rw [← hdrop, List.take_append_drop]
  have hids := allIds_append hanswered (chunk :: (batches size queries).drop (k + 1))
  have hnumber : 0 + ((batches size queries).take k).length = k := by
    rw [List.length_take]
    omega
  rw [← hchunks, hnumber, allIds] at hids
  simp only [(chunkIds_eq_error_iff _ _ _).mpr hrefusal.refused, Except.map] at hids
  simp only [exchange, hids]

/-- Every exchange is of one of the two kinds. -/
theorem answered_or_firstRefusal (server : AdvisoryServer) (chunks : List (List Query)) :
    (∃ answers, Answered server 0 chunks answers) ∨
      ∃ k chunk e, FirstRefusal server chunks k chunk e := by
  rcases answered_or_refused server 0 chunks with hanswered |
    ⟨before, chunk, after, answers, e, rfl, hanswered, hrefuses⟩
  · exact Or.inl hanswered
  · refine Or.inr ⟨before.length, chunk, e, by simp, by simpa using hrefuses, ?_⟩
    intro j chunk' e' hj hplace hrefuses'
    rw [List.getElem?_append_left hj] at hplace
    obtain ⟨hlength, hplaces⟩ := hanswered.getElem?
    obtain ⟨chunk'', hplace', hids⟩ :=
      hplaces j _ (List.getElem?_eq_getElem (hlength ▸ hj))
    obtain rfl := Option.some.inj (hplace.symm.trans hplace')
    rw [Nat.zero_add, (chunkIds_eq_error_iff _ _ _).mpr hrefuses'] at hids
    cases hids

/-- What a successful exchange tells. There are the identifiers that the server
returned for each query, and their records in the same places. All chunks were
posted, and each identifier was asked for once. With any limit on the requests
under way, and in whatever order they are answered, they bring each identifier
once and lead to the same records; and they can always go on to the end. -/
structure Tells (server : AdvisoryServer) (size : Nat) (queries : List Query) (e : Exchange)
    (ids : List (List String)) (results : List (List Advisory)) : Prop where
  ids_length : ids.length = queries.length
  returned : ∀ i, i < queries.length → returned? server size queries i = ids[i]?
  results_length : results.length = queries.length
  described : List.Forall₂ (List.Forall₂ (Describes server)) ids results
  posted : e.posts = (batches size queries).map requestBody
  requested : ∀ id, e.requests.count id =
    if id ∈ ids.flatten ∧ Reply.delivered (server.record id) then 1 else 0
  unordered : ∀ concurrency arrived,
    Fetching.Completes server (max concurrency 1) (requestedIds ids) arrived →
      assemble arrived ids = results ∧
        ∀ id, (arrived.map Prod.fst).count id = if id ∈ ids.flatten then 1 else 0
  unblocked : ∀ concurrency state,
    Fetching.Steps server (max concurrency 1) ⟨requestedIds ids, [], []⟩ state →
      ∃ arrived, Fetching.Steps server (max concurrency 1) state ⟨[], [], arrived⟩

theorem tells_of_answered {answers : List (List (List String))}
    (hanswered : Answered server 0 (batches size queries) answers) :
    Tells server size queries (exchange server size queries) answers.flatten
      (answers.flatten.map fun own => own.map (fetch server)) := by
  have hlength : answers.flatten.length = queries.length := by
    rw [hanswered.flatten_length, batches_flatten]
  have hdescribed : ∀ own : List String,
      List.Forall₂ (Describes server) own (own.map (fetch server)) := by
    intro own
    rw [List.forall₂_map_right_iff, List.forall₂_same]
    exact fun id _ => fetch_describes server id
  refine ⟨hlength, fun i _ => hanswered.returned? i, by rw [List.length_map, hlength], ?_, ?_, ?_,
    ?_, fun concurrency state _ => Fetching.can_complete (by omega) state⟩
  · rw [List.forall₂_map_right_iff, List.forall₂_same]
    exact fun own _ => hdescribed own
  · rw [exchange_of_answered hanswered]
  · intro id
    rw [exchange_of_answered hanswered, (requestedIds_nodup _).filter _ |>.count]
    simp only [List.mem_filter, mem_requestedIds_iff]
  · intro concurrency arrived hrun
    obtain ⟨hperm, hgenuine⟩ := hrun.arrivals
    refine ⟨assemble_eq hgenuine fun id hid => ?_, fun id => ?_⟩
    · exact hperm.mem_iff.mpr ((mem_requestedIds_iff _ id).mpr hid)
    · rw [hperm.count_eq, (requestedIds_nodup _).count]
      simp only [mem_requestedIds_iff]

/-- An exchange succeeds unless a reply refuses identifiers for its chunk. If it
succeeds, each query has the records of the identifiers that the server
returned for it, whatever becomes of single requests for records and in
whatever order they are answered. If not, it ends with the first refusal: that
is its error, no later chunk was posted, and no record was asked for. -/
theorem exchange_exact (server : AdvisoryServer) (size : Nat) (queries : List Query) :
    (∀ results, (exchange server size queries).result = .ok results →
      ∃ ids, Tells server size queries (exchange server size queries) ids results) ∧
    (∀ k chunk e, FirstRefusal server (batches size queries) k chunk e →
      exchange server size queries =
        ⟨.error e,
          ((batches size queries).take k).map requestBody ++
            if Reply.delivered (server.post k (requestBody chunk)) then [requestBody chunk]
            else [],
          []⟩) ∧
    ((∃ results, (exchange server size queries).result = .ok results) ↔
      ∀ k chunk e, ¬FirstRefusal server (batches size queries) k chunk e) := by
  refine ⟨?_, fun k chunk e hrefusal => exchange_of_refusal hrefusal, ?_, ?_⟩
  · intro results hresult
    rcases answered_or_firstRefusal server (batches size queries) with
      ⟨answers, hanswered⟩ | ⟨k, chunk, e, hrefusal⟩
    · refine ⟨answers.flatten, ?_⟩
      have htells := tells_of_answered hanswered
      rw [exchange_of_answered hanswered] at hresult htells ⊢
      cases hresult
      exact htells
    · rw [exchange_of_refusal hrefusal] at hresult
      cases hresult
  · rintro ⟨results, hresult⟩ k chunk e hrefusal
    rw [exchange_of_refusal hrefusal] at hresult
    cases hresult
  · intro hnone
    rcases answered_or_firstRefusal server (batches size queries) with
      ⟨answers, hanswered⟩ | ⟨k, chunk, e, hrefusal⟩
    · rw [exchange_of_answered hanswered]
      exact ⟨_, rfl⟩
    · exact absurd hrefusal (hnone k chunk e)

end Exchange

end WebAudit.Client
