import Columnar.Proofs.Path.Cache
import Columnar.Proofs.Record.Order

/-!
# A cache keeps the most recent paths

What a cache keeps is decided by what was done with it before. The well-formed texts that were
compiled, the last one first and each only where it occurs first, are the recent texts; after every
sequence of operations the cache keeps as many of them from the front as it has room for, in that
order. A hit counts as much as a miss, and neither a malformed path nor a membership test counts.
-/

namespace Columnar.Path

/-- What is done with a cache. -/
inductive Operation
  | compile (text : String)
  | contains (text : String)
deriving DecidableEq, Repr

/-- What an operation answers. -/
inductive Reply
  | path (r : Except CacheError Path)
  | present (b : Bool)

/-- The text that the operation compiles, if it is well-formed. -/
def Operation.compiled? : Operation → Option String
  | .compile text => if (Path.compile text).isOk then some text else none
  | .contains _ => none

/-- The well-formed texts that operations compile, each once, the most recently compiled first. -/
def recentTexts (ops : List Operation) : List String :=
  (ops.filterMap Operation.compiled?).reverse.eraseDups

/-- Compiling a text makes it the most recent one; no other operation matters. -/
theorem recentTexts_concat (ops : List Operation) (op : Operation) :
    recentTexts (ops ++ [op]) =
      match op.compiled? with
      | some text => text :: (recentTexts ops).filter (· != text)
      | none => recentTexts ops := by
  unfold recentTexts
  rw [List.filterMap_append]
  cases hop : op.compiled? with
  | none =>
    rw [List.filterMap_cons_none hop, List.filterMap_nil, List.append_nil]
  | some text =>
    rw [List.filterMap_cons_some hop, List.filterMap_nil, List.reverse_append,
      List.reverse_singleton, List.singleton_append, List.eraseDups_cons, Record.eraseDups_filter]
    rfl

theorem nodup_recentTexts (ops : List Operation) : (recentTexts ops).Nodup :=
  Record.nodup_eraseDups _

/-! ## Moving a text to the front -/

section Front

variable {t : String} {n : Nat}

theorem filter_ne_cons (t : String) {x : String} (hx : x ≠ t) (rest : List String) :
    (x :: rest).filter (· != t) = x :: rest.filter (· != t) := by
  have hkept : (x != t) = true := by simpa using hx
  rw [List.filter_cons, hkept]
  rfl

/-- A text that is kept frees its own place. -/
theorem filter_take_of_mem {xs : List String} (hxs : xs.Nodup) (ht : t ∈ xs.take (n + 1)) :
    (xs.take (n + 1)).filter (· != t) = (xs.filter (· != t)).take n := by
  induction xs generalizing n with
  | nil => cases ht
  | cons x rest ih =>
    obtain ⟨hnew, hrest⟩ := List.nodup_cons.mp hxs
    rw [List.take_succ_cons] at ht ⊢
    by_cases hx : x = t
    · subst hx
      have hothers {ys : List String} (hys : ∀ y ∈ ys, y ∈ rest) :
          (x :: ys).filter (· != x) = ys := by
        rw [List.filter_cons_of_neg (by simp)]
        apply List.filter_eq_self.mpr
        intro y hy
        have hne : y ≠ x := fun heq => hnew (heq ▸ hys y hy)
        simpa using hne
      rw [hothers fun y hy => List.mem_of_mem_take hy, hothers fun y hy => hy]
    · have htail : t ∈ rest.take n := (List.mem_cons.mp ht).resolve_left (Ne.symm hx)
      cases n with
      | zero => cases htail
      | succ n => rw [filter_ne_cons t hx, filter_ne_cons t hx, List.take_succ_cons, ih hrest htail]

/-- A text that is not kept needs the place of the last one. -/
theorem take_filter_of_not_mem {xs : List String} (ht : t ∉ xs.take (n + 1)) :
    (xs.filter (· != t)).take n = xs.take n := by
  induction xs generalizing n with
  | nil => rfl
  | cons x rest ih =>
    cases n with
    | zero => rfl
    | succ n =>
      rw [List.take_succ_cons] at ht
      obtain ⟨hx, htail⟩ := not_or.mp (mt List.mem_cons.mpr ht)
      rw [filter_ne_cons t (Ne.symm hx), List.take_succ_cons, List.take_succ_cons, ih htail]

/-- The kept texts behind a hit: the text goes to the front. -/
theorem take_touched {xs : List String} (hxs : xs.Nodup) (ht : t ∈ xs.take (n + 1)) :
    (t :: xs.filter (· != t)).take (n + 1) = t :: (xs.take (n + 1)).filter (· != t) := by
  rw [List.take_succ_cons, filter_take_of_mem hxs ht]

/-- The kept texts behind a miss: the text goes in front, and the last one is dropped. -/
theorem take_inserted {xs : List String} (ht : t ∉ xs.take (n + 1)) :
    (t :: xs.filter (· != t)).take (n + 1) = (t :: xs.take (n + 1)).take (n + 1) := by
  rw [List.take_succ_cons, List.take_succ_cons, take_filter_of_not_mem ht, List.take_take,
    Nat.min_eq_left (Nat.le_succ n)]

end Front

namespace Cache

/-- The kept texts, the most recent first. -/
def texts (c : Cache) : List String := c.paths.map Path.text

/-- An operation on a cache: its answer and the cache afterwards. -/
def perform (c : Cache) : Operation → Reply × Cache
  | .compile text => (.path (c.compile text).1, (c.compile text).2)
  | .contains text => (.present (c.contains text), c)

/-- The cache behind a sequence of operations. -/
def after (c : Cache) (ops : List Operation) : Cache :=
  ops.foldl (fun c op => (c.perform op).2) c

variable {c : Cache} {ops : List Operation}

theorem find?_eq_none_iff {text : String} : c.find? text = none ↔ text ∉ c.texts := by
  unfold find? texts
  rw [List.find?_eq_none]
  simp

theorem contains_eq (text : String) (c : Cache) :
    c.contains text = decide (text ∈ c.texts) := by
  unfold contains
  cases hfind : c.find? text with
  | none => exact (decide_eq_false (find?_eq_none_iff.mp hfind)).symm
  | some p =>
    obtain ⟨hmem, rfl⟩ := find?_eq_some hfind
    exact (decide_eq_true (List.mem_map_of_mem hmem)).symm

theorem texts_touch (p : Path) (c : Cache) :
    (c.touch p).texts = p.text :: c.texts.filter (· != p.text) := by
  unfold texts touch
  rw [List.map_cons, List.filter_map]
  rfl

theorem texts_insert (p : Path) (c : Cache) :
    (c.insert p).texts = (p.text :: c.texts).take c.capacity.toNat := by
  unfold texts insert
  rw [List.map_take, List.map_cons]

/-- A malformed path is never found, and leaves the cache as it is. -/
theorem Sound.compile_malformed (h : c.Sound) {text : String} {e : PathError}
    (he : Path.compile text = .error e) : c.compile text = (.error (.path e), c) := by
  have hnothing {p : Path} (hp : Path.compile text = .ok p) : False := by
    rw [he] at hp
    cases hp
  rcases compile_cases text c with
    ⟨p, hfind, -⟩ | ⟨e', -, he', hc⟩ | ⟨p, -, hp, -⟩ | ⟨p, -, hp, -⟩
  · exact (hnothing (h.of_find? hfind)).elim
  · rw [hc]
    rw [he] at he'
    cases he'
    rfl
  · exact (hnothing hp).elim
  · exact (hnothing hp).elim

/-! ## What operations keep up -/

/-- The cache keeps the most recent of the texts that operations compiled, and each is what its own
text compiles to. -/
structure Keeps (ops : List Operation) (c : Cache) : Prop where
  texts_eq : c.texts = (recentTexts ops).take c.capacity.toNat
  sound : c.Sound

theorem keeps_empty (capacity : Int) : Keeps [] (empty capacity) :=
  ⟨List.take_nil.symm, sound_empty capacity⟩

namespace Keeps

/-- Every operation on a cache with room keeps the most recent texts. -/
theorem perform (h : Keeps ops c) (hroom : 1 ≤ c.capacity) (op : Operation) :
    Keeps (ops ++ [op]) (c.perform op).2 := by
  obtain ⟨n, hn⟩ : ∃ n, c.capacity.toNat = n + 1 := ⟨c.capacity.toNat - 1, by omega⟩
  have htexts : c.texts = (recentTexts ops).take (n + 1) := hn ▸ h.texts_eq
  cases op with
  | contains text =>
    have hrecent : recentTexts (ops ++ [.contains text]) = recentTexts ops :=
      recentTexts_concat ops _
    exact ⟨hrecent ▸ h.texts_eq, h.sound⟩
  | compile text =>
    refine ⟨?_, h.sound.compile text⟩
    have hcapacity : (c.compile text).2.capacity = c.capacity := capacity_compile text c
    show (c.compile text).2.texts = _
    rw [show (c.perform (.compile text)).2.capacity = c.capacity from hcapacity, hn]
    have hwell {p : Path} (hp : Path.compile text = .ok p) :
        recentTexts (ops ++ [.compile text]) = text :: (recentTexts ops).filter (· != text) := by
      rw [recentTexts_concat, Operation.compiled?, hp]
      rfl
    rcases compile_cases text c with
      ⟨p, hfind, hc⟩ | ⟨e, -, he, hc⟩ | ⟨p, -, -, hfull, -⟩ | ⟨p, hfind, hp, -, hc⟩
    · have hp := h.sound.of_find? hfind
      obtain ⟨hmem, htext⟩ := find?_eq_some hfind
      have hkept : text ∈ (recentTexts ops).take (n + 1) :=
        htexts ▸ htext ▸ List.mem_map_of_mem hmem
      rw [hc, texts_touch, htext, htexts, hwell hp, take_touched (nodup_recentTexts ops) hkept]
    · have hrecent : recentTexts (ops ++ [.compile text]) = recentTexts ops := by
        rw [recentTexts_concat, Operation.compiled?, he]
        rfl
      rw [hc, hrecent]
      exact htexts
    · omega
    · have hnew : text ∉ (recentTexts ops).take (n + 1) := htexts ▸ find?_eq_none_iff.mp hfind
      rw [hc, texts_insert, text_of_compile hp, htexts, hn, hwell hp, take_inserted hnew]

end Keeps

theorem capacity_perform (c : Cache) (op : Operation) :
    (c.perform op).2.capacity = c.capacity := by
  cases op with
  | compile text => exact capacity_compile text c
  | contains text => rfl

theorem capacity_after (c : Cache) (ops : List Operation) :
    (c.after ops).capacity = c.capacity := by
  induction ops generalizing c with
  | nil => rfl
  | cons op rest ih =>
    show ((c.perform op).2.after rest).capacity = c.capacity
    rw [ih, capacity_perform]

theorem Keeps.after {before : List Operation} (h : Keeps before c) (hroom : 1 ≤ c.capacity)
    (ops : List Operation) : Keeps (before ++ ops) (c.after ops) := by
  induction ops generalizing before c with
  | nil => exact (List.append_nil before).symm ▸ h
  | cons op rest ih =>
    have hnext : 1 ≤ (c.perform op).2.capacity := (capacity_perform c op).symm ▸ hroom
    have hrest := ih (h.perform hroom op) hnext
    rw [List.append_assoc, List.singleton_append] at hrest
    exact hrest

/-! ## Caches without room -/

/-- Without room nothing is ever kept. -/
theorem compile_of_no_room (hpaths : c.paths = []) (hfull : c.capacity < 1) (text : String) :
    c.compile text =
      (match Path.compile text with
        | .ok _ => .error .noRoom
        | .error e => .error (.path e), c) := by
  rcases compile_cases text c with
    ⟨p, hfind, -⟩ | ⟨e, -, he, hc⟩ | ⟨p, -, hp, -, hc⟩ | ⟨p, -, -, hroom, -⟩
  · have hmem := (find?_eq_some hfind).1
    rw [hpaths] at hmem
    cases hmem
  · rw [hc, he]
  · rw [hc, hp]
  · omega

theorem after_of_no_room (hpaths : c.paths = []) (hfull : c.capacity < 1)
    (ops : List Operation) : c.after ops = c := by
  induction ops with
  | nil => rfl
  | cons op rest ih =>
    have hsame : (c.perform op).2 = c := by
      cases op with
      | contains text => rfl
      | compile text => exact congrArg Prod.snd (compile_of_no_room hpaths hfull text)
    show (c.perform op).2.after rest = c
    rw [hsame, ih]

end Cache

/-- **A cache keeps exactly the most recent paths.** Whatever was done with a cache that has room,
it keeps the texts compiled most recently, each once and in that order, as many as it has room for,
and each kept path is what its text compiles to. It then compiles a well-formed path, refuses a
malformed one and leaves everything as it is, and answers whether a text is kept without changing
anything. A cache without room stays empty and refuses every well-formed path. -/
theorem cache_keeps_most_recent (capacity : Int) (ops : List Operation) :
    let c := (Cache.empty capacity).after ops
    (1 ≤ capacity →
      c.texts = (recentTexts ops).take capacity.toNat ∧
      c.size = min capacity.toNat (recentTexts ops).length ∧ (c.size : Int) ≤ capacity ∧
      (∀ p ∈ c.paths, Path.compile p.text = .ok p) ∧
      (∀ text p, Path.compile text = .ok p → (c.perform (.compile text)).1 = .path (.ok p)) ∧
      (∀ text e, Path.compile text = .error e →
        c.perform (.compile text) = (.path (.error (.path e)), c)) ∧
      ∀ text, c.perform (.contains text) =
        (.present (decide (text ∈ (recentTexts ops).take capacity.toNat)), c)) ∧
    (capacity ≤ 0 →
      c.paths = [] ∧ c.size = 0 ∧
      ∀ text p, Path.compile text = .ok p →
        c.perform (.compile text) = (.path (.error .noRoom), c)) := by
  intro c
  refine ⟨fun hroom => ?_, fun hnone => ?_⟩
  · have hcapacity : c.capacity = capacity := Cache.capacity_after _ ops
    have hkeeps : c.Keeps ops := (Cache.keeps_empty capacity).after hroom ops
    have htexts : c.texts = (recentTexts ops).take capacity.toNat := hcapacity ▸ hkeeps.texts_eq
    have hsize : c.size = min capacity.toNat (recentTexts ops).length := by
      rw [← List.length_take, ← htexts, Cache.texts, List.length_map]
      rfl
    have hcompile (text : String) : (c.compile text).1 = (Path.compile text).mapError .path :=
      hkeeps.sound.compile_eq (hcapacity ▸ hroom) text
    refine ⟨htexts, hsize, by omega, hkeeps.sound.compiled, ?_, ?_, ?_⟩
    · intro text p hp
      show Reply.path (c.compile text).1 = _
      rw [hcompile, hp]
      rfl
    · intro text e he
      show (Reply.path (c.compile text).1, (c.compile text).2) = _
      rw [hkeeps.sound.compile_malformed he]
    · intro text
      show (Reply.present (c.contains text), c) = _
      rw [Cache.contains_eq, htexts]
  · have hsame : c = Cache.empty capacity :=
      Cache.after_of_no_room rfl (show capacity < 1 by omega) ops
    rw [hsame]
    refine ⟨rfl, rfl, fun text p hp => ?_⟩
    have hrefused := Cache.compile_of_no_room (c := Cache.empty capacity) rfl
      (show capacity < 1 by omega) text
    show (Reply.path ((Cache.empty capacity).compile text).1, _) = _
    rw [hrefused, hp]

/-- With room for two: a hit saves the older path from the next new one; looking for a path and
compiling a malformed one save nothing. Without room, nothing is kept of all that. -/
theorem cache_of_two_drops_least_recent :
    let ops : List Operation := [.compile "$.a", .compile "$.b", .compile "$.a", .contains "$.b",
      .compile "a", .compile "$[0]"]
    (1 : Int) ≤ 2 ∧ ((Cache.empty 2).after ops).texts = ["$[0]", "$.a"] ∧
      ((Cache.empty 2).after ops).perform (.contains "$.b") =
        (.present false, (Cache.empty 2).after ops) ∧
      (0 : Int) ≤ 0 ∧ ((Cache.empty 0).after ops).paths = [] := by
  intro ops
  have hroom : (1 : Int) ≤ 2 := by decide
  have hnone : (0 : Int) ≤ 0 := by decide
  have hrecent : (recentTexts ops).take 2 = ["$[0]", "$.a"] := by decide
  obtain ⟨htexts, -, -, -, -, -, hcontains⟩ := (cache_keeps_most_recent 2 ops).1 hroom
  refine ⟨hroom, htexts.trans hrecent, ?_, hnone, ((cache_keeps_most_recent 0 ops).2 hnone).1⟩
  rw [hcontains]
  show (Reply.present (decide ("$.b" ∈ (recentTexts ops).take 2)), _) = _
  rw [hrecent]
  rfl

end Columnar.Path
