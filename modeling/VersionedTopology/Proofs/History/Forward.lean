/-
  VersionedTopology.Proofs.History.Forward

  The way forward through a history.

  A version has one parent, so the way back from it is a line. The way forward is not kept:
  the next version is the newest one computed from a version, looked up for each version on
  its own. On the ancestry of a version it is the following one exactly where no later
  branch starts. A new version is the newest one computed from its base, and changes the
  next version of no other. So the way forward from the root leads to a new version
  exactly if it has led to its base before; a branch that starts at an earlier version
  hides the rest of the line from it.
-/

import Mathlib.Logic.Relation
import VersionedTopology.Proofs.History.Lineage

namespace VersionedTopology
namespace VersionLog

/-- The first version is the parent of the second. -/
def Derives (log : VersionLog) (v n : VersionNumber) : Prop :=
  ∃ e, log.entryAt? n = some e ∧ e.parent = some v

/-- The second version is reached from the first along next versions. -/
def Onward (log : VersionLog) : VersionNumber → VersionNumber → Prop :=
  Relation.ReflTransGen fun v n => log.child? v = some n

variable {key : EnvironmentKey} {log : VersionLog}

/-! ## The next version -/

/-- The last one, in the order of the numbers, of the versions computed from the given one. -/
theorem child?_eq_getLast? (log : VersionLog) (v : VersionNumber) :
    log.child? v =
      ((log.entries.toList.filter fun x => x.2.parent = some v).getLast?).map Prod.fst := by
  rw [child?, Std.ExtTreeMap.foldl_eq_foldl_toList]
  induction log.entries.toList using List.reverseRecOn with
  | nil => rfl
  | append_singleton xs x ih =>
    rw [List.foldl_append, List.filter_append, ih]
    by_cases h : x.2.parent = some v <;> simp [h]

theorem mem_computed_iff {v n : VersionNumber} {e : LogEntry} :
    (n, e) ∈ log.entries.toList.filter (fun x => x.2.parent = some v) ↔
      log.entryAt? n = some e ∧ e.parent = some v := by
  rw [List.mem_filter, Std.ExtTreeMap.mem_toList_iff_getElem?_eq_some, decide_eq_true_eq, entryAt?]

theorem child?_eq_none_iff {v : VersionNumber} :
    log.child? v = none ↔ ∀ n, ¬ log.Derives v n := by
  rw [child?_eq_getLast?, Option.map_eq_none_iff, List.getLast?_eq_none_iff,
    List.eq_nil_iff_forall_not_mem]
  constructor
  · rintro h n ⟨e, he⟩
    exact h (n, e) (mem_computed_iff.mpr he)
  · rintro h ⟨n, e⟩ hmem
    exact h n ⟨e, mem_computed_iff.mp hmem⟩

/-- The next version is the newest one computed from a version. -/
theorem child?_eq_some_iff {v n : VersionNumber} :
    log.child? v = some n ↔ log.Derives v n ∧ ∀ m, log.Derives v m → m ≤ n := by
  -- what holds of the last version in the order of the numbers determines it
  have hnewest : ∀ n, log.child? v = some n →
      log.Derives v n ∧ ∀ m, log.Derives v m → m ≤ n := by
    intro n h
    rw [child?_eq_getLast?, Option.map_eq_some_iff] at h
    obtain ⟨⟨n', e⟩, hlast, rfl⟩ := h
    obtain ⟨older, hall⟩ := List.getLast?_eq_some_iff.mp hlast
    have hordered := (Std.ExtTreeMap.ordered_keys_toList (t := log.entries)).filter
      (fun x => x.2.parent = some v)
    rw [hall] at hordered
    refine ⟨⟨e, mem_computed_iff.mp (List.mem_of_getLast? hlast)⟩, ?_⟩
    rintro m ⟨x, hx⟩
    have hmem := mem_computed_iff.mpr hx
    rw [hall, List.mem_append, List.mem_singleton] at hmem
    rcases hmem with hmem | heq
    · have hlt := (List.pairwise_append.mp hordered).2.2 _ hmem _ (List.mem_singleton_self _)
      exact Nat.le_of_lt (Nat.compare_eq_lt.mp hlt)
    · exact Nat.le_of_eq (congrArg Prod.fst heq)
  constructor
  · exact hnewest n
  · rintro ⟨hderives, hmax⟩
    cases h : log.child? v with
    | none => exact absurd hderives (child?_eq_none_iff.mp h n)
    | some m =>
      obtain ⟨hm, hmax'⟩ := hnewest m h
      exact congrArg some (Nat.le_antisymm (hmax m hm) (hmax' n hderives))

/-- Where a version has been computed from another, that one has a next version. -/
theorem Derives.exists_child? {v n : VersionNumber} (h : log.Derives v n) :
    ∃ m, log.child? v = some m ∧ n ≤ m := by
  cases hchild : log.child? v with
  | none => exact absurd h (child?_eq_none_iff.mp hchild n)
  | some m => exact ⟨m, rfl, (child?_eq_some_iff.mp hchild).2 n h⟩

/-- A version above the head is the next one of its base, and nothing else changes. -/
theorem child?_push (hlog : log.WellFormed key) {e : LogEntry} {base : VersionNumber}
    (hparent : e.parent = some base) (hlt : log.head < e.snapshot.version)
    (hbelow : log.head < VersionNumber.top) (v : VersionNumber) :
    (log.push e).child? v = if v = base then some e.snapshot.version else log.child? v := by
  have hderives : ∀ n, (log.push e).Derives v n ↔
      n = e.snapshot.version ∧ v = base ∨ log.Derives v n := by
    intro n
    constructor
    · rintro ⟨x, hx, hp⟩
      obtain ⟨rfl, rfl⟩ | hx := eq_or_of_entryAt?_push hx
      · exact .inl ⟨rfl, Option.some.inj (hp.symm.trans hparent)⟩
      · exact .inr ⟨x, hx, hp⟩
    · rintro (⟨rfl, rfl⟩ | ⟨x, hx, hp⟩)
      · exact ⟨e, by rw [entryAt?_push, if_pos rfl], hparent⟩
      · exact ⟨x, hlog.entryAt?_push hlt hbelow hx, hp⟩
  split
  · rename_i hv
    rw [child?_eq_some_iff, hderives]
    refine ⟨.inl ⟨rfl, hv⟩, ?_⟩
    intro m hm
    rw [hderives] at hm
    rcases hm with ⟨rfl, -⟩ | ⟨x, hx, -⟩
    · exact Nat.le_refl _
    · exact Nat.le_of_lt (Nat.lt_of_le_of_lt (hlog.bounded hbelow m x hx) hlt)
  · rename_i hv
    have hsame : ∀ n, (log.push e).Derives v n ↔ log.Derives v n := by
      intro n
      simp [hderives, hv]
    cases hchild : log.child? v with
    | none =>
      rw [child?_eq_none_iff] at hchild ⊢
      intro n
      rw [hsame]
      exact hchild n
    | some n =>
      rw [child?_eq_some_iff] at hchild ⊢
      simpa only [hsame] using hchild

/-! ## The way forward -/

/-- The way forward leads to newer versions only. -/
theorem lt_of_child? (hlog : log.WellFormed key) (htop : log.head < VersionNumber.top)
    {v n : VersionNumber} (h : log.child? v = some n) : v < n := by
  obtain ⟨⟨e, he, hparent⟩, -⟩ := child?_eq_some_iff.mp h
  exact hlog.parentOlder htop n e v he hparent

/-- Nothing has been computed from the newest version. -/
theorem not_derives_of_head_le (hlog : log.WellFormed key) (htop : log.head < VersionNumber.top)
    {v : VersionNumber} (h : log.head ≤ v) (n : VersionNumber) : ¬ log.Derives v n := by
  rintro ⟨e, he, hparent⟩
  have hbeyond := hlog.parentOlder htop n e v he hparent
  exact Nat.not_le_of_lt hbeyond (Nat.le_trans (hlog.bounded htop n e he) h)

/-- A version without parent is none of those that have one. -/
theorem ne_of_parent {a v p : VersionNumber} {root e : LogEntry}
    (hroot : log.entryAt? a = some root) (hnone : root.parent = none)
    (he : log.entryAt? v = some e) (hparent : e.parent = some p) : a ≠ v := by
  rintro rfl
  obtain rfl := Option.some.inj (hroot.symm.trans he)
  exact absurd (hnone.symm.trans hparent) (by simp)

/-- The way forward comes to a version from its parent only. -/
theorem onward_iff_parent {a v p : VersionNumber} {e : LogEntry} (he : log.entryAt? v = some e)
    (hparent : e.parent = some p) (hne : a ≠ v) :
    log.Onward a v ↔ log.Onward a p ∧ log.child? p = some v := by
  constructor
  · intro h
    rcases Relation.ReflTransGen.cases_tail h with heq | ⟨c, hc, hchild⟩
    · exact absurd heq.symm hne
    · obtain ⟨⟨x, hx, hp⟩, -⟩ := child?_eq_some_iff.mp hchild
      obtain rfl := Option.some.inj (he.symm.trans hx)
      obtain rfl := Option.some.inj (hparent.symm.trans hp)
      exact ⟨hc, hchild⟩
  · rintro ⟨h, hchild⟩
    exact h.tail hchild

/-- A new version leaves the way forward to its base, and to anything older, as it was. -/
theorem onward_push_iff (hlog : log.WellFormed key) {e : LogEntry} {base : VersionNumber}
    (hparent : e.parent = some base) (hlt : log.head < e.snapshot.version)
    (hbelow : log.head < VersionNumber.top) (hle : base ≤ log.head) {a b : VersionNumber}
    (hb : b ≤ base) : (log.push e).Onward a b ↔ log.Onward a b := by
  have hchild := child?_push hlog hparent hlt hbelow
  constructor
  · intro h
    induction h with
    | refl => exact .refl
    | @tail c d hac hcd ih =>
      rw [hchild] at hcd
      split at hcd
      · -- the new version is newer than its base
        obtain rfl := Option.some.inj hcd
        exact absurd (Nat.le_trans hb hle) (Nat.not_le_of_lt hlt)
      · have hlt' := lt_of_child? hlog hbelow hcd
        exact (ih (Nat.le_of_lt (Nat.lt_of_lt_of_le hlt' hb))).tail hcd
  · intro h
    induction h with
    | refl => exact .refl
    | @tail c d hac hcd ih =>
      have hlt' := Nat.lt_of_lt_of_le (lt_of_child? hlog hbelow hcd) hb
      refine (ih (Nat.le_of_lt hlt')).tail ?_
      rw [hchild, if_neg (Nat.ne_of_lt hlt')]
      exact hcd

theorem Ancestry.derives (hlog : log.WellFormed key) {v : VersionNumber} {path : List LogEntry}
    (h : log.Ancestry v path) : path.IsChain fun older newer =>
      log.Derives older.snapshot.version newer.snapshot.version := by
  refine (h.linked hlog).imp_of_mem_imp ?_
  intro older newer _ hmem hparent
  exact ⟨newer, h.stored hlog newer hmem, hparent⟩

/-- The way forward from the root leads to a version exactly if on its ancestry each next version
is the following one. -/
theorem Ancestry.onward_iff (hlog : log.WellFormed key) {v : VersionNumber}
    {path : List LogEntry} (h : log.Ancestry v path) {root : LogEntry}
    (hroot : path.head? = some root) :
    log.Onward root.snapshot.version v ↔ path.IsChain fun older newer =>
      log.child? older.snapshot.version = some newer.snapshot.version := by
  induction h with
  | @root v e he hnone =>
    obtain rfl := Option.some.inj hroot
    rw [hlog.numbered v e he]
    exact iff_of_true .refl (List.isChain_singleton _)
  | @child v p e path he hparent h ih =>
    obtain ⟨first, hfirst, hnone⟩ := h.head?
    rw [List.head?_append, hfirst, Option.some_or] at hroot
    obtain rfl := Option.some.inj hroot
    have hne : first.snapshot.version ≠ v :=
      ne_of_parent (h.stored hlog first (List.mem_of_mem_head? hfirst)) hnone he hparent
    rw [onward_iff_parent he hparent hne, ih hfirst, List.isChain_append, h.getLast?]
    have hv := hlog.numbered v e he
    obtain ⟨base, hbase⟩ := Option.isSome_iff_exists.mp (hlog.parentStored v e p he hparent)
    simp [hbase, hlog.numbered p base hbase, hv]

end VersionLog

namespace Ledger

/-- The second version is reached from the first by asking for next versions. -/
def Onward (l : Ledger) (key : EnvironmentKey) : VersionNumber → VersionNumber → Prop :=
  Relation.ReflTransGen fun v n => l.neighbor key v .next = .ok (some n)

/-! ## What is answered about neighbours -/

section neighbours

variable {l : Ledger} {key : EnvironmentKey} {log : VersionLog}

theorem neighbor_of_entryAt? (hlog : l.log? key = some log) {v : VersionNumber} {e : LogEntry}
    (he : log.entryAt? v = some e) (d : Direction) :
    l.neighbor key v d = .ok (log.neighbor v e d) := by
  simp [neighbor, find, hlog, he]

theorem neighbor_ok_iff (hlog : l.log? key = some log) {v : VersionNumber} {d : Direction}
    {found : Option VersionNumber} :
    l.neighbor key v d = .ok found ↔
      ∃ e, log.entryAt? v = some e ∧ log.neighbor v e d = found := by
  cases he : log.entryAt? v with
  | none => simp [neighbor, find, hlog, he]
  | some e => simp [neighbor_of_entryAt? hlog he]

/-- The previous version is the one that a version was computed from. -/
theorem neighbor_previous_iff (hlog : l.log? key = some log) {v n : VersionNumber} :
    l.neighbor key n .previous = .ok (some v) ↔ log.Derives v n :=
  neighbor_ok_iff hlog

/-- The next version is asked for at a stored one, which every parent is. -/
theorem neighbor_next_iff (hlog : l.log? key = some log) (hwell : log.WellFormed key)
    {v n : VersionNumber} :
    l.neighbor key v .next = .ok (some n) ↔ log.child? v = some n := by
  rw [neighbor_ok_iff hlog]
  constructor
  · rintro ⟨e, -, h⟩
    exact h
  · intro h
    obtain ⟨⟨e, he, hparent⟩, -⟩ := VersionLog.child?_eq_some_iff.mp h
    obtain ⟨base, hbase⟩ := Option.isSome_iff_exists.mp (hwell.parentStored n e v he hparent)
    exact ⟨base, hbase, h⟩

/-- Where a version has been computed from another, asking there for the next one is answered with
the newest such version. -/
theorem neighbor_next_of_derives (hlog : l.log? key = some log) (hwell : log.WellFormed key)
    {v n : VersionNumber} (h : log.Derives v n) :
    ∃ m, l.neighbor key v .next = .ok (some m) ∧ l.neighbor key m .previous = .ok (some v) ∧
      (∀ k, l.neighbor key k .previous = .ok (some v) → k ≤ m) ∧ n ≤ m ∧
      (m = n ↔ ∀ k, l.neighbor key k .previous = .ok (some v) → k ≤ n) := by
  simp only [neighbor_next_iff hlog hwell, neighbor_previous_iff hlog]
  obtain ⟨m, hchild, hle⟩ := h.exists_child?
  obtain ⟨hderives, hmax⟩ := VersionLog.child?_eq_some_iff.mp hchild
  refine ⟨m, hchild, hderives, hmax, hle, ?_⟩
  constructor
  · rintro rfl
    exact hmax
  · intro hnewest
    exact Nat.le_antisymm (hnewest m hderives) hle

/-- A version that no other was computed from has no next one. -/
theorem neighbor_next_eq_none (hlog : l.log? key = some log) {v : VersionNumber} {e : LogEntry}
    (he : log.entryAt? v = some e) (h : ∀ n, ¬ log.Derives v n) :
    l.neighbor key v .next = .ok none := by
  rw [neighbor_of_entryAt? hlog he]
  exact congrArg Except.ok (VersionLog.child?_eq_none_iff.mpr h)

theorem onward_iff (hlog : l.log? key = some log) (hwell : log.WellFormed key)
    {a b : VersionNumber} : l.Onward key a b ↔ log.Onward a b := by
  simp only [Onward, neighbor_next_iff hlog hwell, VersionLog.Onward]

end neighbours

/-- **The way forward after a submission.** After any list of requests let a submission be accepted,
with the greatest number not in use. Asking for previous versions leads from its result along a
line to a version without one. For each version on that line, asking for the next version is
answered with the newest one that has it as its previous version. That is never older than the
following version of the line, and is the following version exactly if nothing newer has been
computed from the same one. It always is for the base of the submission, and its result has no next
version. So asking for next versions leads from the root to the result exactly if at every version
of the line the next one is the following one, and that is so exactly if before the submission it
led from the root to its base. -/
theorem next_along_line (schema : Schema) (as : List Act) {key : EnvironmentKey}
    {request : ApplyRequest} {l' : Ledger} {s : Snapshot}
    (haccepted : (({ schema } : Ledger).acts as).submit key request = (l', .ok s))
    (htop : l'.BelowTop key) :
    ∃ (root : VersionNumber) (line : List VersionNumber),
      line.head? = some root ∧ line.getLast? = some s.version ∧
      l'.neighbor key root .previous = .ok none ∧
      line.IsChain (fun older newer => l'.neighbor key newer .previous = .ok (some older)) ∧
      line.IsChain (fun older newer => ∃ n, l'.neighbor key older .next = .ok (some n) ∧
        l'.neighbor key n .previous = .ok (some older) ∧
        (∀ m, l'.neighbor key m .previous = .ok (some older) → m ≤ n) ∧
        newer ≤ n ∧
        (n = newer ↔ ∀ m, l'.neighbor key m .previous = .ok (some older) → m ≤ newer)) ∧
      l'.neighbor key request.version .next = .ok (some s.version) ∧
      l'.neighbor key s.version .previous = .ok (some request.version) ∧
      l'.neighbor key s.version .next = .ok none ∧
      (l'.Onward key root s.version ↔
        line.IsChain fun older newer => l'.neighbor key older .next = .ok (some newer)) ∧
      (l'.Onward key root s.version ↔
        (({ schema } : Ledger).acts as).Onward key root request.version) := by
  obtain ⟨log, base, hlog, hbase, -, hversion, hkey, hlogs⟩ := submit_ok haccepted
  let e : LogEntry := ⟨s, some request.version, request.constraints⟩
  have hlog' : l'.log? key = some (log.push e) := by
    rw [log?_congr hlogs, log?_withLog, if_pos rfl]
  have hold : log.WellFormed key := wellFormed_acts (wellFormed_new schema) as key log hlog
  have hnew : (log.push e).WellFormed key :=
    hold.push rfl (by simp [hbase]) (hkey.trans (hold.owned _ _ hbase)) (.inr hversion)
  have hbelow : s.version < VersionNumber.top := htop _ hlog'
  obtain ⟨hlt, hbelow'⟩ := VersionLog.lt_of_extended (.inr hversion) hbelow
  have hle : request.version ≤ log.head := hold.bounded hbelow' _ base hbase
  have hstored : (log.push e).entryAt? s.version = some e := by
    rw [VersionLog.entryAt?_push, if_pos rfl]
  have hderives : (log.push e).Derives request.version s.version := ⟨e, hstored, rfl⟩
  have hbasenext : (log.push e).child? request.version = some s.version := by
    rw [VersionLog.child?_push hold (e := e) rfl hlt hbelow', if_pos rfl]
  have hlastnext : ∀ n, ¬ (log.push e).Derives s.version n :=
    VersionLog.not_derives_of_head_le hnew hbelow (Nat.le_refl _)
  obtain ⟨path, hpath, -⟩ : ∃ path, (log.push e).Ancestry s.version path ∧ _ :=
    VersionLog.exists_lineage_of_lt_top hnew hbelow
  obtain ⟨root, hhead, hroot⟩ := hpath.head?
  have hrootstored := hpath.stored hnew root (List.mem_of_mem_head? hhead)
  have hne : root.snapshot.version ≠ s.version :=
    VersionLog.ne_of_parent hrootstored hroot hstored rfl
  have hforward := hpath.onward_iff hnew hhead
  refine ⟨root.snapshot.version, path.map fun x => x.snapshot.version, by simp [hhead], ?_, ?_, ?_,
    ?_, (neighbor_next_iff hlog' hnew).mpr hbasenext, (neighbor_previous_iff hlog').mpr hderives,
    neighbor_next_eq_none hlog' hstored hlastnext, ?_, ?_⟩
  · rw [List.getLast?_map, hpath.getLast?, hstored]
    rfl
  · rw [neighbor_of_entryAt? hlog' hrootstored]
    exact congrArg Except.ok hroot
  · rw [List.isChain_map]
    exact (hpath.derives hnew).imp fun _ _ h => (neighbor_previous_iff hlog').mpr h
  · rw [List.isChain_map]
    exact (hpath.derives hnew).imp fun _ _ h => neighbor_next_of_derives hlog' hnew h
  · rw [List.isChain_map, onward_iff hlog' hnew]
    simpa only [neighbor_next_iff hlog' hnew] using hforward
  · rw [onward_iff hlog' hnew, onward_iff hlog hold,
      VersionLog.onward_iff_parent hstored rfl hne,
      VersionLog.onward_push_iff hold (e := e) rfl hlt hbelow' hle (Nat.le_refl _)]
    exact and_iff_left hbasenext

/-- After going back to its first version, an environment goes on from there: the way forward from
the root leads past the older branch to the new version. -/
theorem next_along_line_rewound :
    ∃ l' s, (({} : Ledger).acts rewound).submit depot
        ⟨1, some 2, [.addResource ⟨"aws", "db", "users"⟩]⟩ = (l', .ok s) ∧
      l'.BelowTop depot ∧ s.version = 3 ∧ l'.neighbor depot 1 .next = .ok (some 3) ∧
      ∃ (root : VersionNumber) (line : List VersionNumber),
        line.head? = some root ∧ line.getLast? = some 3 ∧
        l'.neighbor depot root .previous = .ok none ∧
        line.IsChain (fun older newer => l'.neighbor depot newer .previous = .ok (some older)) ∧
        (l'.Onward depot root 3 ↔ (({} : Ledger).acts rewound).Onward depot root 1) := by
  obtain ⟨l', s, haccepted, hversion, htop⟩ : ∃ l' s, (({} : Ledger).acts rewound).submit depot
      ⟨1, some 2, [.addResource ⟨"aws", "db", "users"⟩]⟩ = (l', .ok s) ∧ s.version = 3 ∧
      l'.BelowTop depot := ⟨_, _, rfl, rfl, belowTop_of_all (by rfl)⟩
  obtain ⟨root, line, hhead, hlast, hroot, hline, -, hnext, -, -, -, hforward⟩ :=
    next_along_line {} rewound haccepted htop
  rw [hversion] at hlast hnext hforward
  exact ⟨l', s, haccepted, htop, hversion, hnext, root, line, hhead, hlast, hroot, hline, hforward⟩

/-- An environment with two branches on its first version, of which the older one goes on. -/
def forked : List Act :=
  [.create depot [] [], .submit depot ⟨1, none, [.addResource ⟨"aws", "db", "orders"⟩]⟩,
    .submit depot ⟨1, none, [.addResource ⟨"aws", "db", "users"⟩]⟩]

/-- The batch that the older branch goes on with. -/
def onOlder : ApplyRequest := ⟨2, none, [.addResource ⟨"aws", "s3", "logs"⟩]⟩

/-- On the line 1, 2, 4 the next version of 1 is 3, from where no way leads on to 4. -/
theorem next_leaves_line :
    ∃ l' s, (({} : Ledger).acts forked).submit depot onOlder = (l', .ok s) ∧ s.version = 4 ∧
      l'.BelowTop depot ∧
      l'.neighbor depot 4 .previous = .ok (some 2) ∧
      l'.neighbor depot 2 .previous = .ok (some 1) ∧
      l'.neighbor depot 1 .previous = .ok none ∧
      l'.neighbor depot 1 .next = .ok (some 3) ∧ ¬ l'.Onward depot 1 4 := by
  obtain ⟨l', s, haccepted, hfour, htop, hback, hmid, hroot, hone, hthree⟩ :
      ∃ l' s, (({} : Ledger).acts forked).submit depot onOlder = (l', .ok s) ∧ s.version = 4 ∧
        l'.BelowTop depot ∧ l'.neighbor depot 4 .previous = .ok (some 2) ∧
        l'.neighbor depot 2 .previous = .ok (some 1) ∧ l'.neighbor depot 1 .previous = .ok none ∧
        l'.neighbor depot 1 .next = .ok (some 3) ∧ l'.neighbor depot 3 .next = .ok none :=
    ⟨_, _, rfl, rfl, belowTop_of_all (by rfl), by rfl, by rfl, by rfl, by rfl, by rfl⟩
  refine ⟨l', s, haccepted, hfour, htop, hback, hmid, hroot, hone, ?_⟩
  intro h
  rcases Relation.ReflTransGen.cases_head h with heq | ⟨c, hc, h⟩
  · exact absurd heq (by decide)
  · obtain rfl : 3 = c := Option.some.inj (Except.ok.inj (hone.symm.trans hc))
    rcases Relation.ReflTransGen.cases_head h with heq | ⟨d, hd, -⟩
    · exact absurd heq (by decide)
    · exact absurd (hthree.symm.trans hd) (by simp)

end Ledger
end VersionedTopology
