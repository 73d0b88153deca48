import Rotonda.RibUnit.Search
import Rotonda.RibUnit.Streaming

/-!
Two ways to a query's answer as one JSON object a line: the answer of a search, written out, and a
stream that fetches the prefixes of a family chunk by chunk and filters and labels them itself.

A line is a record of what is serialised.  The writer takes every line.

* `SearchResult.writeJsonl`, `Rib.writeJsonlStream`: the two ways;
* `lines_writeJsonlStream`: the stream without chunks and counters;
* `Searchable`: what the store answers for the default route of a family;
* `writeJsonlStream_sameLines`: for the default route both write the same lines.
-/

namespace Rotonda

open PrefixStore SearchStore Lib.Runs

variable {f : Family}

namespace Prefix

def defaultRoute (f : Family) : Prefix :=
  ⟨⟨f, List.replicate f.octets 0, List.length_replicate⟩, 0, Nat.zero_le _, by cases f <;> rfl⟩

theorem eq_defaultRoute {p : Prefix} (hf : p.family = f) (hlen : p.len = 0) :
    p = defaultRoute f := by
  refine eq_of_significant hf hlen ?_
  simp [significant, hlen, defaultRoute]

end Prefix

inductive LineSection where
  | data
  | moreSpecifics
  | lessSpecifics
  deriving DecidableEq, Repr

/-- A line; with `fields` it has only the path attributes of these types. -/
structure JsonlLine where
  pfx : Prefix
  label : LineSection
  status : RouteStatus
  ingress : Option (IngressId × IngressInfo)
  pamap : RotondaPaMap
  fields : Option (List UInt8)
  deriving DecidableEq, Repr

def jsonlLine (filter : QueryFilter) (info : IngressId → Option IngressInfo) (label : LineSection)
    (p : Prefix) (r : Record RotondaPaMap) : JsonlLine where
  pfx := p
  label := label
  status := r.status
  ingress := (info r.multiUniqId).map fun ii => (r.multiUniqId, ii)
  pamap := r.metaData
  fields := filter.fieldsPathAttributes

/-! ## The answer of a search -/

namespace SearchResult

def line (sr : SearchResult) : LineSection → Prefix → Record RotondaPaMap → JsonlLine :=
  jsonlLine sr.queryFilter sr.ingressInfo

def writeJsonlRecordset (sr : SearchResult) (set : List (PrefixRecord RotondaPaMap))
    (label : LineSection) : List JsonlLine :=
  set.flatMap fun pr => pr.metaData.map (sr.line label pr.pfx)

def writeJsonl (sr : SearchResult) : List JsonlLine :=
  (match sr.pfx with
    | some p => sr.queryResult.records.map (sr.line .data p)
    | none => []) ++
  (match sr.queryResult.moreSpecifics with
    | some set => sr.writeJsonlRecordset set .moreSpecifics
    | none => []) ++
  (match sr.queryResult.lessSpecifics with
    | some set => sr.writeJsonlRecordset set .lessSpecifics
    | none => [])

end SearchResult

/-! ## The stream -/

/-- A dump so far: its counters and the lines written. -/
structure Dump where
  prefixesScanned : Nat := 0
  prefixesEmitted : Nat := 0
  recordsEmitted : Nat := 0
  lines : List JsonlLine := []

def Dump.writeLine (d : Dump) (line : JsonlLine) : Dump :=
  { d with recordsEmitted := d.recordsEmitted + 1, lines := d.lines ++ [line] }

namespace Rib

variable {S : Type} [PrefixStore S RotondaPaMap]

/-- A prefix without records still counts as scanned; one that cannot be read is skipped. -/
def fetchRecords (s : S) (p : Prefix) : Option (PrefixRecord RotondaPaMap) :=
  match getRecordsForPrefix s p none true with
  | .ok (some records) => some ⟨p, records⟩
  | .ok none => some ⟨p, []⟩
  | .error _ => none

section Stream

variable (apply : List (Record RotondaPaMap) → List (Record RotondaPaMap))
  (line : LineSection → Prefix → Record RotondaPaMap → JsonlLine) (query : Prefix)

def sectionOf (p : Prefix) : LineSection := if p = query then .data else .moreSpecifics

/-- One prefix of a batch. -/
def writePrefix (d : Dump) (pr : PrefixRecord RotondaPaMap) : Dump :=
  let d := { d with prefixesScanned := d.prefixesScanned + 1 }
  let live := retainLive pr.metaData
  if live.isEmpty then d
  else
    let kept := apply live
    if kept.isEmpty then d
    else
      let d := { d with prefixesEmitted := d.prefixesEmitted + 1 }
      (kept.map (line (sectionOf query pr.pfx) pr.pfx)).foldl Dump.writeLine d

/-- One chunk of keys; the flag says whether the deadline is over after it. -/
def writeChunk (s : S) (d : Dump) (chunk : List Prefix × Bool) : Dump × Option Stop :=
  ((chunk.1.filterMap (fetchRecords s)).foldl (writePrefix apply line query) d,
    if chunk.2 then some .deadline else none)

end Stream

/-! ## Lines of the stream -/

/-- The records of a prefix that a read shows and that are not withdrawn. -/
def liveRecords (s : S) (p : Prefix) : List (Record RotondaPaMap) :=
  (fetchRecords s p).elim [] fun pr => retainLive pr.metaData

variable {s : S}

theorem pfx_of_fetchRecords {p : Prefix} {pr : PrefixRecord RotondaPaMap}
    (h : fetchRecords s p = some pr) : pr.pfx = p := by
  unfold fetchRecords at h
  split at h <;> cases h <;> rfl

theorem lines_foldl_writeLine (d : Dump) (ls : List JsonlLine) :
    (ls.foldl Dump.writeLine d).lines = d.lines ++ ls := by
  induction ls generalizing d with
  | nil => simp
  | cons l ls ih => rw [List.foldl_cons, ih, Dump.writeLine, List.append_assoc]; rfl

section Lines

variable (keep : Record RotondaPaMap → Bool)
  (line : LineSection → Prefix → Record RotondaPaMap → JsonlLine) (query : Prefix)

def prefixLines (p : Prefix) (live : List (Record RotondaPaMap)) : List JsonlLine :=
  (live.filter keep).map (line (sectionOf query p) p)

theorem lines_writePrefix (d : Dump) (pr : PrefixRecord RotondaPaMap) :
    (writePrefix (List.filter keep) line query d pr).lines =
      d.lines ++ prefixLines keep line query pr.pfx (retainLive pr.metaData) := by
  simp only [writePrefix, prefixLines]
  split
  next hlive => simp [List.isEmpty_iff.mp hlive]
  · split
    next hkept => simp [List.isEmpty_iff.mp hkept]
    · rw [lines_foldl_writeLine]

theorem lines_foldl_writePrefix (d : Dump) (prs : List (PrefixRecord RotondaPaMap)) :
    (prs.foldl (writePrefix (List.filter keep) line query) d).lines =
      d.lines ++ prs.flatMap fun pr =>
        prefixLines keep line query pr.pfx (retainLive pr.metaData) := by
  induction prs generalizing d with
  | nil => simp
  | cons pr prs ih =>
    rw [List.foldl_cons, ih, lines_writePrefix, List.append_assoc, List.flatMap_cons]

theorem flatMap_fetchRecords (s : S) (keys : List Prefix) :
    ((keys.filterMap (fetchRecords s)).flatMap fun pr =>
        prefixLines keep line query pr.pfx (retainLive pr.metaData)) =
      keys.flatMap fun p => prefixLines keep line query p (liveRecords s p) := by
  induction keys with
  | nil => rfl
  | cons p keys ih =>
    rw [List.flatMap_cons, liveRecords]
    cases hfetch : fetchRecords s p with
    | none =>
      rw [List.filterMap_cons_none hfetch, ih]
      rfl
    | some pr =>
      rw [List.filterMap_cons_some hfetch, List.flatMap_cons, ih, pfx_of_fetchRecords hfetch]
      rfl

/-- Without a deadline the chunks are one batch of all keys. -/
theorem lines_runUntil_writeChunk (s : S) (keys : List Prefix) :
    (runUntil (writeChunk (List.filter keep) line query s) {}
        ((keys.toChunks dumpKeyChunk).zipIdx.map fun (chunk, _) => (chunk, false))).1.lines =
      keys.flatMap fun p => prefixLines keep line query p (liveRecords s p) := by
  have hnone : ∀ (d : Dump) (chunk : List Prefix),
      (writeChunk (List.filter keep) line query s d (chunk, false)).2 = none := fun _ _ => rfl
  rw [map_zipIdx_fst (·, false), runUntil_map, runUntil_of_none hnone]
  have hflat : (keys.toChunks dumpKeyChunk).foldl (fun d chunk =>
        (writeChunk (List.filter keep) line query s d (chunk, false)).1) {} =
      (keys.filterMap (fetchRecords s)).foldl (writePrefix (List.filter keep) line query) {} := by
    conv_rhs => rw [← flatten_toChunks dumpKeyChunk keys]
    rw [List.filterMap_flatten, List.foldl_flatten, List.foldl_map]
    rfl
  rw [hflat, lines_foldl_writePrefix, List.nil_append, flatMap_fetchRecords]

end Lines

variable [QueryStore S RotondaPaMap] [SearchStore S RotondaPaMap] (lib : Library)

/-- `expired n` says whether the deadline is over after chunk `n`. -/
def writeJsonlStream (rib : Rib S) (afisafi : AfiSafiType) (query : Prefix) (filter : QueryFilter)
    (expired : Nat → Bool) : Except String Dump := do
  let store ← rib.storeFor lib afisafi
  let info := rib.ingressRegister.get
  let roto ← lib.rotoFilter filter
  let keys := if query.isV4 then prefixesKeysIterFor .v4 store else prefixesKeysIterFor .v6 store
  let chunks := (keys.toChunks dumpKeyChunk).zipIdx.map fun (chunk, n) => (chunk, expired n)
  return (runUntil
    (writeChunk (applyFilter lib filter info roto) (jsonlLine filter info) query store)
    {} chunks).1

/-! ## Lines of the default route -/

def routes (prs : List (PrefixRecord RotondaPaMap)) : List (Prefix × Record RotondaPaMap) :=
  prs.flatMap fun pr => pr.metaData.map fun r => (pr.pfx, r)

/-- The prefixes of a family that are longer than its default route, with their live records. -/
def longerPrefixes (s : S) (f : Family) : List (PrefixRecord RotondaPaMap) :=
  ((prefixesKeysIterFor f s).filter fun p => decide (0 < p.len)).map fun p =>
    ⟨p, liveRecords s p⟩

/-- The record is of the ingress that is asked for, if one is. -/
def ofMui (mui : Option Mui) (r : Record RotondaPaMap) : Bool :=
  mui.all fun id => r.multiUniqId == id

/-- The answer to a query for the default route with its more specifics: its own records, and the
longer prefixes with theirs. -/
structure Answers (s : S) (f : Family) (opts : QueryOptions) (res : QueryResult RotondaPaMap) :
    Prop where
  own : res.records.Perm ((liveRecords s (.defaultRoute f)).filter (ofMui opts.mui))
  matched : res.records ≠ [] → matchedPrefix s (.defaultRoute f) opts = some (.defaultRoute f)
  longer : (routes (res.moreSpecifics.getD [])).Perm
    ((routes (longerPrefixes s f)).filter fun pr => ofMui opts.mui pr.2)
  less : res.lessSpecifics.getD [] = []

/-- The key iterator of the family yields each prefix that has a live record, once, and queries for
the default route are answered. -/
structure Searchable (s : S) (f : Family) : Prop where
  family : ∀ p ∈ prefixesKeysIterFor f s, p.family = f
  nodup : (prefixesKeysIterFor f s).Nodup
  complete : ∀ p, p.family = f → liveRecords s p ≠ [] → p ∈ prefixesKeysIterFor f s
  answers : ∀ mui, ∃ res, QueryStore.query s (.defaultRoute f)
    ⟨.exactMatch, false, false, true, mui⟩ = .ok res ∧
      Answers s f ⟨.exactMatch, false, false, true, mui⟩ res

section Default

variable {keep : Record RotondaPaMap → Bool}
  {line : LineSection → Prefix → Record RotondaPaMap → JsonlLine}

theorem routes_cons_filter (pr : PrefixRecord RotondaPaMap)
    (prs : List (PrefixRecord RotondaPaMap)) :
    ((routes (pr :: prs)).filter fun pr => keep pr.2) =
      ((pr.metaData.filter keep).map fun r => (pr.pfx, r)) ++
        (routes prs).filter fun pr => keep pr.2 := by
  rw [routes, List.flatMap_cons, List.filter_append, List.filter_map]
  rfl

theorem routes_retainSet (set : List (PrefixRecord RotondaPaMap)) :
    routes (retainSet (List.filter keep) set) = (routes set).filter fun pr => keep pr.2 := by
  induction set with
  | nil => rfl
  | cons pr set ih =>
    rw [routes_cons_filter, ← ih, retainSet, List.map_cons, List.filter_cons]
    split
    · rfl
    next hempty =>
      have hnil : pr.metaData.filter keep = [] := by simpa using hempty
      rw [hnil]
      rfl

theorem flatMap_retainSet (label : LineSection) (set : List (PrefixRecord RotondaPaMap)) :
    ((retainSet (List.filter keep) set).flatMap fun pr => pr.metaData.map (line label pr.pfx)) =
      ((routes set).filter fun pr => keep pr.2).map fun pr => line label pr.1 pr.2 := by
  rw [← routes_retainSet, routes, List.map_flatMap]
  simp only [List.map_map]
  rfl

theorem flatMap_longer (f : Family) (live : Prefix → List (Record RotondaPaMap))
    {keys : List Prefix} (h : ∀ p ∈ keys, p ≠ .defaultRoute f) :
    (keys.flatMap fun p => prefixLines keep line (.defaultRoute f) p (live p)) =
      ((routes (keys.map fun p => ⟨p, live p⟩)).filter fun pr => keep pr.2).map
        fun pr => line .moreSpecifics pr.1 pr.2 := by
  induction keys with
  | nil => rfl
  | cons p keys ih =>
    rw [List.map_cons, routes_cons_filter, List.map_append, List.map_map, List.flatMap_cons,
      prefixLines, sectionOf, if_neg (h p List.mem_cons_self),
      ih fun q hq => h q (List.mem_cons_of_mem _ hq)]
    rfl

theorem flatMap_default (h : Searchable s f) :
    ((prefixesKeysIterFor f s).filter fun p => !decide (0 < p.len)).flatMap
        (fun p => prefixLines keep line (.defaultRoute f) p (liveRecords s p)) =
      ((liveRecords s (.defaultRoute f)).filter keep).map (line .data (.defaultRoute f)) := by
  have hfilter : ((prefixesKeysIterFor f s).filter fun p => !decide (0 < p.len)) =
      (prefixesKeysIterFor f s).filter (· = .defaultRoute f) := by
    refine List.filter_congr fun p hp => ?_
    rw [← decide_not, decide_eq_decide]
    constructor
    · intro hlen
      exact Prefix.eq_defaultRoute (h.family p hp) (by omega)
    · rintro rfl
      simp [Prefix.defaultRoute]
  rw [hfilter, List.filter_eq]
  by_cases hmem : Prefix.defaultRoute f ∈ prefixesKeysIterFor f s
  · rw [List.count_eq_one_of_mem h.nodup hmem]
    simp [prefixLines, sectionOf]
  · have hnone : liveRecords s (.defaultRoute f) = [] :=
      by_contra fun hne => hmem (h.complete _ rfl hne)
    rw [List.count_eq_zero_of_not_mem hmem, hnone]
    rfl

variable (keep line) in
def defaultLines (s : S) (f : Family) : List JsonlLine :=
  ((liveRecords s (.defaultRoute f)).filter keep).map (line .data (.defaultRoute f)) ++
    ((routes (longerPrefixes s f)).filter fun pr => keep pr.2).map
      fun pr => line .moreSpecifics pr.1 pr.2

variable (keep line) in
theorem streamed_perm (h : Searchable s f) :
    ((prefixesKeysIterFor f s).flatMap fun p =>
        prefixLines keep line (.defaultRoute f) p (liveRecords s p)).Perm
      (defaultLines keep line s f) := by
  have hlonger : ∀ p ∈ (prefixesKeysIterFor f s).filter fun p => decide (0 < p.len),
      p ≠ .defaultRoute f := by
    rintro p hp rfl
    simp [Prefix.defaultRoute] at hp
  have hsplit := List.filter_append_perm (fun p : Prefix => decide (0 < p.len))
    (prefixesKeysIterFor f s)
  refine (hsplit.symm.flatMap_right _).trans ?_
  rw [List.flatMap_append, flatMap_longer f (liveRecords s) hlonger, flatMap_default h]
  exact List.perm_append_comm

/-- A record set of an answer: what is asked of the store by ingress is filtered by it again. -/
theorem filter_perm_of_mui {α : Type} {mui keep : α → Bool} (hmui : ∀ a, keep a = true → mui a = true)
    {as bs : List α} (h : as.Perm (bs.filter mui)) : (as.filter keep).Perm (bs.filter keep) := by
  have hfilter : (bs.filter mui).filter keep = bs.filter keep := by
    rw [List.filter_filter]
    refine List.filter_congr fun a _ => ?_
    cases hkeep : keep a with
    | false => rfl
    | true => rw [hmui a hkeep]; rfl
  rw [← hfilter]
  exact h.filter keep

theorem lines_recordset (sr : SearchResult) (label : LineSection)
    (set : Option (List (PrefixRecord RotondaPaMap))) :
    (match set.map (retainSet (List.filter keep)) with
      | some set => sr.writeJsonlRecordset set label
      | none => []) =
      ((routes (set.getD [])).filter fun pr => keep pr.2).map fun pr => sr.line label pr.1 pr.2 := by
  cases set with
  | none => rfl
  | some set => exact flatMap_retainSet label set

theorem searched_perm {opts : QueryOptions} {res : QueryResult RotondaPaMap}
    (h : Answers s f opts res) (hmui : ∀ r, keep r = true → ofMui opts.mui r = true)
    (filter : QueryFilter) (info : IngressId → Option IngressInfo) :
    (SearchResult.writeJsonl {
      pfx := matchedPrefix s (.defaultRoute f) opts
      queryResult := {
        records := res.records.filter keep
        moreSpecifics := res.moreSpecifics.map (retainSet (List.filter keep))
        lessSpecifics := res.lessSpecifics.map (retainSet (List.filter keep)) }
      ingressInfo := info
      queryFilter := filter }).Perm (defaultLines keep (jsonlLine filter info) s f) := by
  have hown := filter_perm_of_mui hmui h.own
  have hlonger := @filter_perm_of_mui _ _ (fun pr => keep pr.2) (fun pr => hmui pr.2) _ _ h.longer
  simp only [SearchResult.writeJsonl, lines_recordset, h.less]
  rw [show routes [] = [] from rfl, List.filter_nil, List.map_nil, List.append_nil]
  refine List.Perm.append ?_ (hlonger.map _)
  by_cases hnone : res.records = []
  · -- no data lines, whatever prefix the answer is for
    rw [hnone, List.filter_nil] at hown ⊢
    rw [List.nil_perm.mp hown]
    cases matchedPrefix s (.defaultRoute f) opts <;> exact .nil
  · rw [h.matched hnone]
    exact hown.map _

end Default

theorem passes_ofMui {filter : QueryFilter} {info : IngressId → Option IngressInfo}
    {roto : Option RotoHttpFilter} {r : Record RotondaPaMap}
    (h : passes lib filter info roto r = true) : ofMui filter.ingressId r = true := by
  simp only [passes, Bool.and_eq_true] at h
  exact h.1.1.1.1.1

/-- The same error, or the same lines in some order. -/
def SameLines : Except String (List JsonlLine) → Except String (List JsonlLine) → Prop
  | .ok ls, .ok ls' => ls.Perm ls'
  | .error e, .error e' => e = e'
  | _, _ => False

/-- For the default route of a family, and without a deadline, the stream has the lines of the
search. -/
theorem writeJsonlStream_sameLines (rib : Rib S) (afisafi : AfiSafiType) (f : Family)
    (filter : QueryFilter) (hstore : ∀ s, rib.storeFor lib afisafi = .ok s → Searchable s f)
    (hmore : .moreSpecifics ∈ filter.includes) (hless : .lessSpecifics ∉ filter.includes) :
    SameLines
      ((rib.writeJsonlStream lib afisafi (.defaultRoute f) filter fun _ => false).map Dump.lines)
      ((rib.searchRoutes lib afisafi (.defaultRoute f) filter).map SearchResult.writeJsonl) := by
  unfold writeJsonlStream searchRoutes
  cases hs : rib.storeFor lib afisafi with
  | error e => rfl
  | ok s =>
    cases hroto : lib.rotoFilter filter with
    | error e => rfl
    | ok roto =>
      have hopts : filter.options = ⟨.exactMatch, false, false, true, filter.ingressId⟩ := by
        simp [QueryFilter.options, hmore, hless]
      obtain ⟨res, hres, hans⟩ := (hstore s hs).answers filter.ingressId
      rw [← hopts] at hres hans
      have happly : applyFilter lib filter rib.ingressRegister.get roto =
          List.filter (passes lib filter rib.ingressRegister.get roto) :=
        funext (applyFilter_eq lib filter rib.ingressRegister.get roto)
      have hkeys : (if (Prefix.defaultRoute f).isV4 then prefixesKeysIterFor .v4 s
          else prefixesKeysIterFor .v6 s) = prefixesKeysIterFor f s := by
        cases f <;> rfl
      have hstream := streamed_perm (passes lib filter rib.ingressRegister.get roto)
        (jsonlLine filter rib.ingressRegister.get) (hstore s hs)
      have hsearch := searched_perm hans
        (fun r (hr : passes lib filter rib.ingressRegister.get roto r = true) =>
          passes_ofMui lib hr) filter rib.ingressRegister.get
      rw [← lines_runUntil_writeChunk] at hstream
      dsimp only [bind, Except.bind, hres]
      rw [hres, hkeys, happly]
      exact hstream.trans hsearch.symm

end Rib

/-! ### A store over a finite map -/

namespace MapStore

instance {M : Type} : SearchStore (MapStore M) M where
  prefixesKeysIterFor := fun f s => s.prefixes.filter fun p => p.family = f
  matchedPrefix := fun s p opts =>
    (s.answered p opts).filter fun q => !(s.shown opts q).isEmpty

variable (s : MapStore RotondaPaMap) (f : Family)

theorem liveRecords_eq (p : Prefix) : Rib.liveRecords s p = retainLive (s.recordsFor p) := by
  simp [Rib.liveRecords, Rib.fetchRecords, getRecordsForPrefix]

theorem shown_eq (mui : Option Mui) (p : Prefix) :
    s.shown ⟨.exactMatch, false, false, true, mui⟩ p =
      (Rib.liveRecords s p).filter (Rib.ofMui mui) := by
  rw [liveRecords_eq, retainLive, List.filter_filter, shown]
  refine List.filter_congr fun r _ => ?_
  cases mui with
  | none => simp [Rib.ofMui]
  | some id => simp [Rib.ofMui, Bool.beq_comm, eq_comm]

theorem flatMap_filter_nonempty {α β : Type} (g : α → List β) (as : List α) :
    (as.filter fun a => !(g a).isEmpty).flatMap g = as.flatMap g := by
  induction as with
  | nil => rfl
  | cons a as ih =>
    rw [List.filter_cons, List.flatMap_cons, ← ih]
    split
    · rw [List.flatMap_cons]
    next hempty =>
      have hnil : g a = [] := by simpa using hempty
      rw [hnil]
      rfl

theorem covers_defaultRoute (q : Prefix) : (Prefix.defaultRoute f).Covers q ↔ q.family = f := by
  simp [Prefix.Covers, Prefix.bits, Prefix.defaultRoute, Prefix.family, eq_comm]

theorem routes_map (live : Prefix → List (Record RotondaPaMap)) (ps : List Prefix) :
    Rib.routes (ps.map fun p => ⟨p, live p⟩) = ps.flatMap fun p => (live p).map fun r => (p, r) := by
  rw [Rib.routes, List.flatMap_map]

theorem longer_iff {q : Prefix} :
    q ≠ .defaultRoute f ∧ (Prefix.defaultRoute f).Covers q ↔ 0 < q.len ∧ q.family = f := by
  rw [covers_defaultRoute]
  refine and_congr_left fun hf => ⟨fun hne => ?_, ?_⟩
  · exact Nat.pos_of_ne_zero fun hlen => hne (Prefix.eq_defaultRoute hf hlen)
  · rintro hlen rfl
    exact Nat.lt_irrefl 0 hlen

/-- The more specifics of the default route are the longer prefixes. -/
theorem routes_others (mui : Option Mui) :
    Rib.routes (s.others ⟨.exactMatch, false, false, true, mui⟩ (some (.defaultRoute f))
        fun q => (Prefix.defaultRoute f).Covers q) =
      (Rib.routes (Rib.longerPrefixes s f)).filter fun pr => Rib.ofMui mui pr.2 := by
  let lines : Prefix → List (Prefix × Record RotondaPaMap) := fun p =>
    ((Rib.liveRecords s p).filter (Rib.ofMui mui)).map fun r => (p, r)
  have hkeys : ((s.shownPrefixes ⟨.exactMatch, false, false, true, mui⟩
        fun q => (Prefix.defaultRoute f).Covers q).filter
          fun q => decide (some q ≠ some (Prefix.defaultRoute f))) =
      ((prefixesKeysIterFor f s).filter fun p => decide (0 < p.len)).filter
        fun p => !(lines p).isEmpty := by
    simp only [shownPrefixes, shown_eq, prefixesKeysIterFor, List.filter_filter]
    refine List.filter_congr fun q _ => ?_
    have hlonger := @longer_iff f q
    simp only [lines, List.isEmpty_map]
    rw [Bool.eq_iff_iff]
    simp only [Bool.and_eq_true, decide_eq_true_eq, ne_eq, Option.some.injEq]
    tauto
  rw [others, hkeys]
  simp only [shown_eq]
  rw [routes_map, flatMap_filter_nonempty lines, Rib.longerPrefixes, routes_map, List.filter_flatMap]
  simp only [lines, List.filter_map]
  rfl

theorem searchable : Rib.Searchable s f where
  family p hp := by simpa using (List.mem_filter.mp hp).2
  nodup := (List.nodup_dedup _).filter _
  complete p hf hlive := by
    rw [liveRecords_eq] at hlive
    obtain ⟨r, hr⟩ := List.exists_mem_of_ne_nil _ hlive
    have hread := mem_recordsFor.mp (List.mem_filter.mp hr).1
    refine List.mem_filter.mpr ⟨mem_prefixes (m := r.multiUniqId) ?_, decide_eq_true hf⟩
    rw [← read_isSome, hread]
    rfl
  answers mui := by
    refine ⟨_, rfl, ⟨?_, ?_, ?_, rfl⟩⟩
    · simp [answered, shown_eq]
    · intro hne
      simpa [matchedPrefix, answered] using hne
    · rw [asked_getD]
      exact .of_eq (routes_others s f mui)

end MapStore

namespace Rib

/-- A library that finds no attributes and has no filters. -/
def bareLibrary : Library where
  getOtc := fun _ => none
  getCommunities := fun _ => none
  getLargeCommunities := fun _ => none
  getOrigin := fun _ => none
  displayAfiSafi := fun _ => ""
  displayStoreError := fun _ => ""
  rotoPackage := none

/-- A default route of ingress 1 and one longer route, of ingresses 1 and 2. -/
def defaultAndLonger : Rib (MapStore RotondaPaMap) :=
  ⟨((MapStore.tryDefault.insert (.defaultRoute .v4) ⟨1, 0, .active, .emptyPathAttributes⟩).insert
    (.slash8 10) ⟨1, 0, .active, .emptyPathAttributes⟩).insert
    (.slash8 10) ⟨2, 0, .active, .emptyPathAttributes⟩, .tryDefault, .new⟩

def moreOfIngress1 : QueryFilter := { includes := [.moreSpecifics], ingressId := some 1 }

theorem writeJsonlStream_defaultAndLonger :
    let streamed := (defaultAndLonger.writeJsonlStream bareLibrary .ipv4Unicast (.defaultRoute .v4)
      moreOfIngress1 fun _ => false).map Dump.lines
    let searched := (defaultAndLonger.searchRoutes bareLibrary .ipv4Unicast (.defaultRoute .v4)
      moreOfIngress1).map SearchResult.writeJsonl
    SameLines streamed searched ∧
      streamed.map (List.map JsonlLine.label) = .ok [.moreSpecifics, .data] ∧
      searched.map (List.map JsonlLine.label) = .ok [.data, .moreSpecifics] := by
  refine ⟨writeJsonlStream_sameLines bareLibrary defaultAndLonger .ipv4Unicast .v4 moreOfIngress1
    (fun s _ => MapStore.searchable s .v4) (by decide) (by decide), rfl, rfl⟩

end Rib

end Rotonda
