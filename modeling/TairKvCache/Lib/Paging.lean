import Mathlib

/-!
# Paged scans

A store is read page by page: a page is asked for at a cursor and names the
cursor of the next one, and cursor 0 is both where a scan starts and what
ends it. `Pages page next c ls` says that the pages from cursor `c` on are
`ls`; there is at most one such list, and a scan that has one ends.

`shardPage` is the page of a sharded table: whole shards from the cursor on,
until the limit is reached. Its pages exist from every shard, and together
they are the table.
-/

namespace TairKvCache.Lib

open List

variable {α β : Type*}

/-! ## Chains of pages -/

/-- The pages from cursor `c` up to the one whose next cursor is 0. -/
inductive Pages (page : Nat → Option β) (next : β → Nat) : Nat → List β → Prop where
  | last {c : Nat} {b : β} : page c = some b → next b = 0 → Pages page next c [b]
  | more {c : Nat} {b : β} {ls : List β} :
      page c = some b → next b ≠ 0 → Pages page next (next b) ls → Pages page next c (b :: ls)

variable {page : Nat → Option β} {next : β → Nat}

/-- What is left of a chain: its first page, and the rest of it unless that
page ends the scan. -/
theorem Pages.cases {c : Nat} {ls : List β} (h : Pages page next c ls) :
    ∃ b rest, ls = b :: rest ∧ page c = some b ∧
      ((next b = 0 ∧ rest = []) ∨ (next b ≠ 0 ∧ Pages page next (next b) rest)) := by
  cases h with
  | last hb hn => exact ⟨_, [], rfl, hb, .inl ⟨hn, rfl⟩⟩
  | more hb hn hrest => exact ⟨_, _, rfl, hb, .inr ⟨hn, hrest⟩⟩

theorem Pages.map {γ : Type*} {page' : Nat → Option γ} {next' : γ → Nat} (f : β → γ)
    (hpage : ∀ c b, page c = some b → page' c = some (f b)) (hnext : ∀ b, next' (f b) = next b)
    {c : Nat} {ls : List β} (h : Pages page next c ls) : Pages page' next' c (ls.map f) := by
  induction h with
  | last hb hn => exact .last (hpage _ _ hb) ((hnext _).trans hn)
  | more hb hn _ ih =>
    refine .more (hpage _ _ hb) (by rwa [hnext]) ?_
    rwa [hnext]

/-! ## Sharded tables -/

/-- Whole shards, the first of which is the one before `next`, until `limit`
elements have been collected; with the cursor behind them. -/
def collectShards (limit : Nat) : Nat → Nat → List (List α) → List α × Nat
  | _, _, [] => ([], 0)
  | count, next, shard :: rest =>
    if limit ≤ count + shard.length then (shard, if rest.isEmpty then 0 else next)
    else
      let out := collectShards limit (count + shard.length) (next + 1) rest
      (shard ++ out.1, out.2)

/-- The page of a sharded table at a cursor, which is a shard number. -/
def shardPage (limit : Nat) (shards : List (List α)) (start : Nat) : Option (List α × Nat) :=
  if start < shards.length then some (collectShards limit 0 (start + 1) (shards.drop start))
  else none

/-- A page ends the table, or is the part of it before the shard it names. -/
theorem collectShards_spec (limit count next : Nat) (shards : List (List α)) :
    ((collectShards limit count next shards).2 = 0 ∧
        (collectShards limit count next shards).1 = shards.flatten) ∨
      ∃ k, 0 < k ∧ k < shards.length ∧
        (collectShards limit count next shards).2 = next + k - 1 ∧
        (collectShards limit count next shards).1 = (shards.take k).flatten := by
  induction shards generalizing count next with
  | nil => exact .inl ⟨rfl, rfl⟩
  | cons shard rest ih =>
    rw [collectShards]
    split_ifs with hfull hrest
    · obtain rfl : rest = [] := isEmpty_iff.mp hrest
      exact .inl ⟨rfl, by simp⟩
    · have hpos : 0 < rest.length :=
        length_pos_iff.mpr fun h => hrest (isEmpty_iff.mpr h)
      exact .inr ⟨1, by omega, by simpa using hpos, by simp, by simp⟩
    · rcases ih (count + shard.length) (next + 1) with ⟨hc, hl⟩ | ⟨k, hk, hlt, hc, hl⟩
      · exact .inl ⟨hc, by simp [hl]⟩
      · refine .inr ⟨k + 1, by omega, by simpa using hlt, ?_, by simp [hl]⟩
        dsimp only
        omega

/-- From every shard on there are pages, and they are the rest of the table. -/
theorem shardPages_from (limit : Nat) (shards : List (List α)) {start : Nat}
    (hstart : start < shards.length) : ∃ ls, Pages (shardPage limit shards) Prod.snd start ls ∧
      (ls.map Prod.fst).flatten = (shards.drop start).flatten := by
  obtain ⟨left, hleft⟩ : ∃ left, shards.length - start = left := ⟨_, rfl⟩
  induction left using Nat.strong_induction_on generalizing start with
  | _ left ih =>
    have hpage : shardPage limit shards start
        = some (collectShards limit 0 (start + 1) (shards.drop start)) := if_pos hstart
    rcases collectShards_spec limit 0 (start + 1) (shards.drop start) with
      ⟨hc, hl⟩ | ⟨k, hk, hlt, hc, hl⟩
    · exact ⟨_, .last hpage hc, by simp [hl]⟩
    · rw [length_drop] at hlt
      have hc' : (collectShards limit 0 (start + 1) (shards.drop start)).2 = start + k := by
        omega
      obtain ⟨ls, hls, hflat⟩ := ih (shards.length - (start + k)) (by omega)
        (show start + k < shards.length by omega) rfl
      refine ⟨_, .more hpage (by omega) (by rwa [hc']), ?_⟩
      rw [map_cons, flatten_cons, hl, hflat, ← drop_drop,
        ← flatten_append, take_append_drop]

theorem shardPages (limit : Nat) {shards : List (List α)} (h : shards ≠ []) :
    ∃ ls, Pages (shardPage limit shards) Prod.snd 0 ls ∧
      (ls.map Prod.fst).flatten = shards.flatten :=
  shardPages_from limit shards (length_pos_iff.mpr h)

end TairKvCache.Lib
