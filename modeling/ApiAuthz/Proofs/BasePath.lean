/-
Which base path an API has. `Answer` lists the ways in which servers and a choice come to a
base path, or to a report, by the servers alone: it speaks of declared servers and their paths,
and not of the list of paths that is made on the way. If all URLs of the servers can be taken
apart, `resolve` comes to what `Answer` says and to nothing else (`resolve_eq_iff`); otherwise
it fails as the first URL does that cannot (`resolve_of_rejected`).

# The chain

The resolution is made in steps: the paths of all servers first, then a look at the choice,
then one of the paths. `resolve_eq_among` takes the steps together as a choice among the
paths, and `exists_answer` finds the answer for each way this can go; `resolve_of_answer` is
the converse, by cases of the answer. A URL that cannot be taken apart is malformed and
nothing else (`malformed_of_path`), for the path of a URL can always be sanitized
(`sanitize_of_ofServer`).

# What follows

What else holds of base paths is read off `Answer`, case by case. None of its cases looks at
the order of the servers, so two orders have answers of one kind (`sameKind_of_perm`); which
server an answer names is the one thing that the order can change. And the path of a server
is sanitized already, so that it selects its own server. `resolve_servers` puts these
together.
-/
import ApiAuthz.Proofs.FirstFault
import ApiAuthz.Proofs.SanitizedPath

namespace ApiAuthz

-- ==================================================== URLs that are refused

namespace Url

/-- A host is refused as malformed and not otherwise. -/
theorem malformed_of_checkHost {host : List Char} {f : Fault} (h : checkHost host = .error f) :
    ∃ diagnosis, f = .malformed diagnosis := by
  unfold checkHost at h
  split at h
  · split at h
    · cases h
    · cases h
      exact ⟨_, rfl⟩
  · split at h
    · cases h
    · split at h
      · cases h
        exact ⟨_, rfl⟩
      · cases h
        exact ⟨_, rfl⟩

/-- So is an authority for its brackets. -/
theorem malformed_of_checkBrackets {authority : List Char} {f : Fault}
    (h : checkBrackets authority = .error f) : ∃ diagnosis, f = .malformed diagnosis := by
  unfold checkBrackets at h
  split at h
  · cases h
  · unfold checkBracketed at h
    simp only at h
    split at h
    · split at h
      · cases h
        exact ⟨_, rfl⟩
      · split at h
        · exact malformed_of_checkHost h
        · cases h
          exact ⟨_, rfl⟩
        · exact malformed_of_checkHost h
    · exact malformed_of_checkHost h
  · cases h
    exact ⟨_, rfl⟩

/-- A URL that cannot be taken apart is malformed. -/
theorem malformed_of_path {url : String} {f : Fault} (h : path url = .error f) :
    ∃ diagnosis, f = .malformed diagnosis := by
  unfold path at h
  simp only at h
  cases hb : checkBrackets (splitAuthority (withoutScheme (cleaned url.toList))).1 with
  | error e =>
      rw [hb] at h
      cases h
      exact malformed_of_checkBrackets hb
  | ok u =>
      rw [hb] at h
      change (if _ then _ else _) = _ at h
      split at h
      · cases h
        exact ⟨_, rfl⟩
      · cases h

end Url

namespace BasePath

open UrlPath (sanitize)

variable {servers : List String} {choice? : Option String}

-- ==================================================== paths of servers

/-- A server is refused where its URL cannot be read, for the path of a URL can always be sanitized.
-/
theorem of?_ofServer (url : String) : Fault.of? (ofServer url) = Fault.of? (Url.path url) :=
  Fault.of?_bind_pure UrlPath.sanitize

/-- The path of a server is sanitized. -/
theorem sanitize_of_ofServer {url path : String} (h : ofServer url = .ok path) :
    sanitize path = path := by
  obtain ⟨raw, -, h⟩ := Attempt.bind_eq_ok.1 h
  rw [← Attempt.pure_eq_ok.1 h]
  exact UrlPath.sanitize_sanitize raw

/-- Every URL can be taken apart. -/
def Accepted (servers : List String) : Prop := ∀ url ∈ servers, ∃ path, Url.path url = .ok path

/-- An accepted server has a base path. -/
theorem exists_ofServer (h : Accepted servers) {url : String} (hurl : url ∈ servers) :
    ∃ path, ofServer url = .ok path := by
  obtain ⟨path, hpath⟩ := h url hurl
  exact ⟨sanitize path, Attempt.bind_eq_ok.2 ⟨path, hpath, rfl⟩⟩

/-- Accepted servers have their base paths, in order. -/
theorem exists_paths (h : Accepted servers) : ∃ paths, servers.mapM ofServer = .ok paths := by
  rw [Fault.exists_ok_iff, Fault.of?_mapM, List.findSome?_eq_none_iff]
  intro url hurl
  obtain ⟨path, hpath⟩ := exists_ofServer h hurl
  rw [hpath]
  rfl

/-- Each of these is the path of a server. -/
theorem mem_paths_iff {paths : List String} (h : servers.mapM ofServer = .ok paths)
    {path : String} : path ∈ paths ↔ ∃ url ∈ servers, ofServer url = .ok path := by
  have hpaths := Attempt.mapM_eq_ok.1 h
  constructor
  · intro hpath
    exact Attempt.exists_of_mem_right hpaths hpath
  · rintro ⟨url, hurl, hpath⟩
    obtain ⟨other, hother, hsame⟩ := Attempt.exists_of_mem_right hpaths.flip hurl
    cases hpath.symm.trans hsame
    exact hother

-- ==================================================== answers

/-- A choice as a value: null is none. -/
def given : Option String → Value
  | none => .null
  | some choice => .text choice

/-- What servers and a choice come to. Without servers a choice does not count; with servers it
has to be, once sanitized, the path of one of them. Where no choice is made, there has to be one
server only. -/
inductive Answer (servers : List String) : Option String → Attempt String → Prop
  | empty (h : servers = []) (choice? : Option String) : Answer servers choice? (.ok "")
  | chosen {choice url : String} (h : url ∈ servers) (hpath : ofServer url = .ok (sanitize choice)) :
      Answer servers (some choice) (.ok (sanitize choice))
  | mismatch {choice : String} (hne : servers ≠ [])
      (h : ∀ url ∈ servers, ofServer url ≠ .ok (sanitize choice)) :
      Answer servers (some choice) (.error (.reported (.basePathMismatch choice servers)))
  | only {url path : String} (h : servers = [url]) (hpath : ofServer url = .ok path) :
      Answer servers none (.ok path)
  | ambiguous (h : 2 ≤ servers.length) :
      Answer servers none (.error (.reported (.ambiguousServers servers)))

/-- Servers and a choice come to something. -/
theorem exists_answer (h : Accepted servers) (choice? : Option String) :
    ∃ outcome, Answer servers choice? outcome := by
  by_cases hnil : servers = []
  · exact ⟨_, .empty hnil choice?⟩
  · cases choice? with
    | some choice =>
        by_cases hdeclared : ∃ url ∈ servers, ofServer url = .ok (sanitize choice)
        · obtain ⟨url, hurl, hpath⟩ := hdeclared
          exact ⟨_, .chosen hurl hpath⟩
        · refine ⟨_, .mismatch hnil ?_⟩
          intro url hurl hpath
          exact hdeclared ⟨url, hurl, hpath⟩
    | none =>
        match servers, hnil with
        | [], hnil => exact absurd rfl hnil
        | [url], _ =>
            obtain ⟨path, hpath⟩ := exists_ofServer h (List.mem_singleton_self url)
            exact ⟨_, .only rfl hpath⟩
        | url :: other :: rest, _ =>
            refine ⟨_, .ambiguous ?_⟩
            simp

/-- Where there are servers, the choice is among their paths. -/
theorem resolve_eq_among {paths : List String} (hne : servers ≠ [])
    (h : servers.mapM ofServer = .ok paths) (choice? : Option String) :
    resolve servers (given choice?) = among servers paths choice? := by
  unfold resolve
  rw [if_neg (by simpa using hne), h, ← choose_eq_among]
  cases choice? with
  | none => rfl
  | some choice => rfl

/-- The resolution gives the answer that the rules allow. -/
theorem resolve_of_answer (h : Accepted servers) {outcome : Attempt String}
    (ha : Answer servers choice? outcome) : resolve servers (given choice?) = outcome := by
  obtain ⟨paths, hpaths⟩ := exists_paths h
  cases ha with
  | empty hnil =>
      subst hnil
      rfl
  | chosen hurl hpath =>
      have hmem := (mem_paths_iff hpaths).2 ⟨_, hurl, hpath⟩
      rw [resolve_eq_among (List.ne_nil_of_mem hurl) hpaths]
      show (if paths.contains _ then _ else _) = _
      rw [if_pos (List.contains_iff_mem.2 hmem)]
  | mismatch hne hnone =>
      rw [resolve_eq_among hne hpaths]
      show (if paths.contains _ then _ else _) = _
      rw [if_neg]
      · rfl
      · intro hmem
        obtain ⟨url, hurl, hpath⟩ := (mem_paths_iff hpaths).1 (List.contains_iff_mem.1 hmem)
        exact hnone url hurl hpath
  | only hone hpath =>
      subst hone
      rw [resolve_eq_among (List.cons_ne_nil _ _) hpaths]
      rw [List.mapM_cons, List.mapM_nil, hpath] at hpaths
      cases hpaths
      rfl
  | ambiguous hlength =>
      have hsame := (Attempt.mapM_eq_ok.1 hpaths).length_eq
      rw [resolve_eq_among (by rintro rfl; cases hlength) hpaths]
      match paths with
      | [] => rfl
      | [path] =>
          rw [hsame] at hlength
          simp at hlength
      | path :: other :: rest => rfl

/-- What is resolved is what servers and choice come to. -/
theorem resolve_eq_iff (h : Accepted servers) {outcome : Attempt String} :
    resolve servers (given choice?) = outcome ↔ Answer servers choice? outcome := by
  constructor
  · intro heq
    obtain ⟨answer, ha⟩ := exists_answer h choice?
    rw [← heq, resolve_of_answer h ha]
    exact ha
  · exact resolve_of_answer h

/-- A base path that is not empty is sanitized, and the path of a declared server. -/
theorem declared_of_answer {path : String} (h : Answer servers choice? (.ok path))
    (hne : path ≠ "") : sanitize path = path ∧ ∃ url ∈ servers, ofServer url = .ok path := by
  cases h with
  | empty hnil => exact absurd rfl hne
  | chosen hurl hpath => exact ⟨UrlPath.sanitize_sanitize _, _, hurl, hpath⟩
  | only hone hpath =>
      subst hone
      exact ⟨sanitize_of_ofServer hpath, _, List.mem_singleton_self _, hpath⟩

-- ==================================================== URLs that are refused

/-- Servers are looked at in order, so the first URL that cannot be taken apart is the fault. -/
theorem resolve_of_rejected (h : ¬Accepted servers) (choice? : Option String) :
    ∃ before url behind diagnosis, servers = before ++ url :: behind ∧ Accepted before ∧
      Url.path url = .error (.malformed diagnosis) ∧
      resolve servers (given choice?) = .error (.malformed diagnosis) := by
  have hne : servers ≠ [] := by
    rintro rfl
    exact h (List.forall_mem_nil _)
  have hfault : Fault.of? (servers.mapM ofServer) =
      servers.findSome? fun url => Fault.of? (Url.path url) := by
    rw [Fault.of?_mapM]
    simp only [of?_ofServer]
  cases hpaths : servers.mapM ofServer with
  | ok paths =>
      -- then none of them is at fault
      rw [hpaths] at hfault
      refine absurd ?_ h
      intro url hurl
      rw [Fault.exists_ok_iff]
      exact List.findSome?_eq_none_iff.1 hfault.symm url hurl
  | error f =>
      rw [hpaths] at hfault
      obtain ⟨before, url, behind, hservers, hurl, hbefore⟩ :=
        List.findSome?_eq_some_iff.1 hfault.symm
      have hpath := Fault.of?_eq_some.1 hurl
      obtain ⟨diagnosis, rfl⟩ := Url.malformed_of_path hpath
      refine ⟨before, url, behind, diagnosis, hservers, ?_, hpath, ?_⟩
      · intro other hother
        rw [Fault.exists_ok_iff]
        exact hbefore other hother
      · unfold resolve
        rw [if_neg (by simpa using hne), hpaths]
        rfl

-- ==================================================== orders of servers

/-- The same result, or errors of one kind. -/
inductive SameKind : Attempt String → Attempt String → Prop
  | result (path : String) : SameKind (.ok path) (.ok path)
  | reported {cause cause' : MappingError} (h : cause.report.kind = cause'.report.kind) :
      SameKind (.error (.reported cause)) (.error (.reported cause'))
  | malformed (diagnosis diagnosis' : String) :
      SameKind (.error (.malformed diagnosis)) (.error (.malformed diagnosis'))

/-- The order of servers does not matter to the kind of an answer. -/
theorem Answer.perm {outcome : Attempt String} {others : List String}
    (h : Answer servers choice? outcome) (hp : others.Perm servers) :
    ∃ outcome', Answer others choice? outcome' ∧ SameKind outcome' outcome := by
  cases h with
  | empty hnil =>
      subst hnil
      exact ⟨_, .empty hp.eq_nil _, .result _⟩
  | chosen hurl hpath => exact ⟨_, .chosen (hp.mem_iff.2 hurl) hpath, .result _⟩
  | mismatch hne hnone =>
      refine ⟨_, .mismatch ?_ fun url hurl => hnone url (hp.mem_iff.1 hurl), .reported rfl⟩
      rintro rfl
      exact hne hp.nil_eq.symm
  | only hone hpath =>
      subst hone
      exact ⟨_, .only hp.eq_singleton hpath, .result _⟩
  | ambiguous hlength =>
      rw [← hp.length_eq] at hlength
      exact ⟨_, .ambiguous hlength, .reported rfl⟩

/-- The order of the servers does not count. -/
theorem sameKind_of_perm {others : List String} (hp : others.Perm servers)
    (choice? : Option String) :
    SameKind (resolve others (given choice?)) (resolve servers (given choice?)) := by
  have haccepted : Accepted others ↔ Accepted servers := by
    unfold Accepted
    simp only [hp.mem_iff]
  by_cases h : Accepted servers
  · obtain ⟨outcome, ha⟩ := exists_answer h choice?
    obtain ⟨outcome', ha', hsame⟩ := ha.perm hp
    rw [resolve_of_answer h ha, resolve_of_answer (haccepted.2 h) ha']
    exact hsame
  · obtain ⟨-, -, -, diagnosis, -, -, -, hresolved⟩ := resolve_of_rejected h choice?
    obtain ⟨-, -, -, diagnosis', -, -, -, hresolved'⟩ :=
      resolve_of_rejected (mt haccepted.1 h) choice?
    rw [hresolved, hresolved']
    exact .malformed diagnosis' diagnosis

-- ==================================================== base paths

/-- Servers given as a value are resolved as they are. -/
theorem resolveValues_texts (servers : List String) (base : Value) :
    resolveValues (.texts servers) base = resolve servers base := by
  cases servers with
  | nil => rfl
  | cons server servers =>
      have hvalues : ((server :: servers).map Value.text).mapM ofServerValue =
          (server :: servers).mapM ofServer := List.mapM_map
      have htexts : ((server :: servers).map Value.text).filterMap Value.text? =
          server :: servers := by
        rw [List.filterMap_map]
        exact List.filterMap_some
      unfold resolveValues resolve
      rw [List.isEmpty_cons, if_neg Bool.false_ne_true]
      show (((server :: servers).map Value.text).mapM ofServerValue >>= fun paths =>
        choiceOf base >>= choose (((server :: servers).map Value.text).filterMap Value.text?)
          paths) = _
      rw [hvalues, htexts]

/-- The base path of servers whose URLs can all be taken apart, with a choice or without, is
what `Answer` says. If it is not empty, it is sanitized and the path of a declared server; and
every server can be chosen by its own path. The order of the servers never changes the result
or the kind of error. Where some URL cannot be taken apart, the first such URL is the fault. -/
theorem resolve_servers (servers : List String) (choice? : Option String) :
    (Accepted servers →
      (∀ outcome, resolve servers (given choice?) = outcome ↔ Answer servers choice? outcome) ∧
      (∀ path, resolve servers (given choice?) = .ok path → path ≠ "" →
        sanitize path = path ∧ ∃ url ∈ servers, ofServer url = .ok path) ∧
      (∀ url ∈ servers, ∃ path, ofServer url = .ok path ∧
        resolve servers (.text path) = .ok path)) ∧
      (∀ others, others.Perm servers →
        SameKind (resolve others (given choice?)) (resolve servers (given choice?))) ∧
      (¬Accepted servers →
        ∃ before url behind diagnosis, servers = before ++ url :: behind ∧ Accepted before ∧
          Url.path url = .error (.malformed diagnosis) ∧
          resolve servers (given choice?) = .error (.malformed diagnosis)) ∧
      resolveValues (.texts servers) (given choice?) = resolve servers (given choice?) := by
  refine ⟨?_, fun others hp => sameKind_of_perm hp choice?, fun h => resolve_of_rejected h choice?,
    resolveValues_texts servers _⟩
  intro h
  refine ⟨fun outcome => resolve_eq_iff h, ?_, ?_⟩
  · intro path hresolved hne
    exact declared_of_answer ((resolve_eq_iff h).1 hresolved) hne
  · intro url hurl
    obtain ⟨path, hpath⟩ := exists_ofServer h hurl
    have hsanitized := sanitize_of_ofServer hpath
    refine ⟨path, hpath, ?_⟩
    -- its own path is the choice, and sanitized already
    rw [← hsanitized] at hpath
    have hchosen := resolve_of_answer h (.chosen hurl hpath)
    rw [hsanitized] at hchosen
    exact hchosen

/-- Two servers whose paths differ by more than a slash at the end. -/
def twoServers : List String := ["http://a/prod", "http://b/staging/"]

/-- One of two servers is chosen by a path that has to be sanitized, or by its own, and the
other order of the two makes no difference; an address that is not closed is the fault of its
server. -/
theorem resolve_servers_twoServers :
    Accepted twoServers ∧ Answer twoServers (some "staging") (.ok "/staging") ∧
      resolve twoServers (.text "/prod") = .ok "/prod" ∧
      SameKind (resolve twoServers.reverse .null) (resolve twoServers .null) ∧
      ¬Accepted ["http://a", "http://[b"] ∧
      ∃ diagnosis, resolve ["http://a", "http://[b"] .null = .error (.malformed diagnosis) := by
  have haccepted : Accepted twoServers :=
    List.forall_mem_cons.2 ⟨⟨_, rfl⟩, List.forall_mem_cons.2 ⟨⟨_, rfl⟩, List.forall_mem_nil _⟩⟩
  have hrejected : ¬Accepted ["http://a", "http://[b"] := by
    intro h
    obtain ⟨path, hpath⟩ := h "http://[b" (by simp)
    cases hpath
  obtain ⟨hanswer, -, hself⟩ := (resolve_servers twoServers (some "staging")).1 haccepted
  obtain ⟨path, hpath, hresolved⟩ := hself "http://a/prod" List.mem_cons_self
  cases hpath
  obtain ⟨-, horder, -⟩ := resolve_servers twoServers none
  obtain ⟨-, -, -, diagnosis, -, -, -, hfault⟩ :=
    (resolve_servers ["http://a", "http://[b"] none).2.2.1 hrejected
  exact ⟨haccepted, (hanswer _).1 rfl, hresolved, horder _ (List.reverse_perm _), hrejected,
    diagnosis, hfault⟩

end BasePath

end ApiAuthz
