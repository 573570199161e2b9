import TairKvCache.Registry.Table

/-!
# Rewriting a hash in Redis

`RegistryRedisBackend` keeps one map of the registry as a Redis hash. To
change one entry, `LoadAndSave` and `LoadAndDelete` read all fields, and then
write them back with a pipeline of `DEL` and `HSET`. The pipeline is not a
transaction, and it is sent again when the connection is lost.

What the commands that were executed do to the hash is an `Effect`, and
`other_entries_kept_iff` says for each of them when the other entries are
still there: never after a `DEL` that no `HSET` followed.
-/

namespace TairKvCache.Registry

open List

/-- A hash, its fields in the order in which the server lists them. -/
abbrev Hash := AList (fun _ : String => String)

inductive Cmd
  | del
  | hset (fields : List (String × String))
deriving DecidableEq, Repr

/-- The integer that the server answers, and the new hash. -/
def Cmd.exec (hash : Hash) : Cmd → Nat × Hash
  | .del => (if hash.entries = [] then 0 else 1, ∅)
  | .hset fields =>
    (fields.countP fun e => (hash.lookup e.1).isNone,
      fields.foldl (fun hash e => hash.insert e.1 e.2) hash)

/-! ## Pipelines -/

/-- One attempt to run a pipeline: which commands were executed. With the
connection lost there are no replies, whatever was executed. -/
inductive Attempt
  | replied (executed : List Bool)
  | lost (executed : List Bool)
deriving DecidableEq, Repr

/-- The replies, `none` for an error, and the new hash. -/
def runCmds (hash : Hash) : List Cmd → List Bool → List (Option Nat) × Hash
  | cmd :: cmds, true :: executed =>
    let r := cmd.exec hash
    let rest := runCmds r.2 cmds executed
    (some r.1 :: rest.1, rest.2)
  | _ :: cmds, false :: executed =>
    let rest := runCmds hash cmds executed
    (none :: rest.1, rest.2)
  | cmds, _ => (cmds.map fun _ => none, hash)

/-- `CommandPipeline`: the attempts are those until one is replied to, or the
client gives up. -/
def commandPipeline (hash : Hash) (cmds : List Cmd) : List Attempt → Option (List (Option Nat)) × Hash
  | [] => (none, hash)
  | .replied executed :: _ =>
    let r := runCmds hash cmds executed
    (some r.1, r.2)
  | .lost executed :: rest => commandPipeline (runCmds hash cmds executed).2 cmds rest

/-! ## The backend -/

/-- `std::string(reply->str)`: a string up to its first NUL. -/
def cStr (s : String) : String := String.ofList (s.toList.takeWhile (· ≠ Char.ofNat 0))

/-- `GetAllFields` of the listed fields: the first one of a name is kept. -/
def readFields (fields : List (Sigma fun _ : String => String)) : ValueMap String :=
  fields.foldl
    (fun m e => if (m.find (cStr e.1)).isSome then m else m.insert (cStr e.1) (cStr e.2)) .empty

def load (hash : Hash) (answered : Bool) : ErrorCode × ValueMap String :=
  if !answered then (.error, .empty)
  else if hash.entries = [] then (.noent, .empty)
  else (.ok, readFields hash.entries)

def buildSetCmds (m : ValueMap String) : List Cmd :=
  .del :: if m.entries = [] then [] else [.hset m.entries]

def save (hash : Hash) (m : ValueMap String) (attempts : List Attempt) : ErrorCode × Hash :=
  let r := commandPipeline hash (buildSetCmds m) attempts
  (match r.1 with
    | none => .error
    | some replies => if replies.all (·.isSome) then .ok else .error,
   r.2)

def delete (hash : Hash) (attempts : List Attempt) : ErrorCode × Hash :=
  let r := commandPipeline hash [.del] attempts
  (match r.1 with
    | some [some 0] => .noent
    | some [some _] => .ok
    | _ => .error,
   r.2)

/-! ## Changing one entry -/

inductive EntryChange
  | save (id value : String)
  | delete (id : String)
deriving DecidableEq, Repr

def EntryChange.id : EntryChange → String
  | .save id _ => id
  | .delete id => id

/-- `LoadAndSave` and `LoadAndDelete`. -/
def change (hash : Hash) (answered : Bool) (attempts : List Attempt) :
    EntryChange → ErrorCode × Hash
  | .save id value =>
    let r := load hash answered
    if r.1 ≠ .ok ∧ r.1 ≠ .noent then (r.1, hash)
    else save hash (r.2.insert id value) attempts
  | .delete id =>
    let r := load hash answered
    if r.1 ≠ .ok ∧ r.1 ≠ .noent then (r.1, hash)
    else if (r.2.erase id).entries = [] then delete hash attempts
    else save hash (r.2.erase id) attempts

/-! ## Effects -/

/-- What the executed commands have done to the hash. -/
inductive Effect
  | untouched
  | deleted
  | overlaid
  | rewritten
deriving DecidableEq, Repr

def Effect.after : Effect → Cmd → Effect
  | _, .del => .deleted
  | .untouched, .hset _ | .overlaid, .hset _ => .overlaid
  | .deleted, .hset _ | .rewritten, .hset _ => .rewritten

def Effect.attempt (effect : Effect) : List Cmd → List Bool → Effect
  | cmd :: cmds, true :: executed => (effect.after cmd).attempt cmds executed
  | _ :: cmds, false :: executed => effect.attempt cmds executed
  | _, _ => effect

/-- The effect of a pipeline, which is sent until it is replied to. -/
def Effect.pipeline (effect : Effect) (cmds : List Cmd) : List Attempt → Effect
  | [] => effect
  | .replied executed :: _ => effect.attempt cmds executed
  | .lost executed :: rest => (effect.attempt cmds executed).pipeline cmds rest

def Effect.fields (hash : Hash) (m : ValueMap String) (n : String) : Effect → Option String
  | .untouched => hash.lookup n
  | .deleted => none
  | .overlaid => (m.find n).or (hash.lookup n)
  | .rewritten => m.find n

theorem lookup_hset (hash : Hash) {l : List (String × String)}
    (hl : l.Pairwise fun a b => a.1 < b.1) (n : String) :
    (l.foldl (fun hash e => hash.insert e.1 e.2) hash).lookup n
      = ((l.find? fun e => decide (e.1 = n)).map (·.2)).or (hash.lookup n) := by
  induction l generalizing hash with
  | nil => rfl
  | cons e l ih =>
    obtain ⟨he, hl'⟩ := pairwise_cons.mp hl
    rw [foldl_cons, ih _ hl']
    by_cases hn : e.1 = n
    · have hnone : (l.find? fun e => decide (e.1 = n)) = none := by
        refine find?_eq_none.mpr fun e' he' => ?_
        simpa [← hn] using ne_of_gt (he e' he')
      rw [hnone, find?_cons_of_pos (by simpa using hn), ← hn, AList.lookup_insert]
      rfl
    · rw [find?_cons_of_neg (by simpa using hn), AList.lookup_insert_ne (Ne.symm hn)]

variable {hash now : Hash} {m : ValueMap String} {eff : Effect}

theorem fields_del (hash : Hash) (m : ValueMap String) (eff : Effect) (n : String) :
    ((Cmd.del.exec now).2).lookup n = (eff.after .del).fields hash m n := by
  cases eff <;> rfl

theorem fields_hset (hnow : ∀ n, now.lookup n = eff.fields hash m n) (n : String) :
    ((Cmd.hset m.entries).exec now).2.lookup n
      = (eff.after (.hset m.entries)).fields hash m n := by
  have hfind : ((m.entries.find? fun e => decide (e.1 = n)).map (·.2)) = m.find n := rfl
  rw [Cmd.exec, lookup_hset now m.sorted, hnow, hfind]
  cases eff with
  | untouched => rfl
  | deleted => exact Option.or_none
  | overlaid | rewritten =>
    rw [Effect.fields, Effect.after, Effect.fields]
    cases m.find n <;> rfl

/-- The commands that `Set` sends for `m`. -/
def SetCmds (m : ValueMap String) (cmds : List Cmd) : Prop :=
  ∀ cmd ∈ cmds, cmd = .del ∨ cmd = .hset m.entries

theorem runCmds_fields {cmds : List Cmd} (hcmds : SetCmds m cmds) (executed : List Bool)
    (hnow : ∀ n, now.lookup n = eff.fields hash m n) (n : String) :
    (runCmds now cmds executed).2.lookup n = (eff.attempt cmds executed).fields hash m n := by
  induction cmds generalizing now eff executed with
  | nil => cases executed <;> exact hnow n
  | cons cmd cmds ih =>
    have hrest : SetCmds m cmds := fun cmd' h => hcmds cmd' (mem_cons_of_mem _ h)
    cases executed with
    | nil => exact hnow n
    | cons done executed =>
      cases done with
      | false => exact ih hrest executed hnow
      | true =>
        refine ih hrest executed fun n' => ?_
        rcases hcmds cmd mem_cons_self with rfl | rfl
        · exact fields_del hash m eff n'
        · exact fields_hset hnow n'

theorem commandPipeline_fields {cmds : List Cmd} (hcmds : SetCmds m cmds)
    (attempts : List Attempt) (hnow : ∀ n, now.lookup n = eff.fields hash m n) (n : String) :
    (commandPipeline now cmds attempts).2.lookup n
      = (eff.pipeline cmds attempts).fields hash m n := by
  induction attempts generalizing now eff with
  | nil => exact hnow n
  | cons attempt rest ih =>
    cases attempt with
    | replied executed => exact runCmds_fields hcmds executed hnow n
    | lost executed => exact ih fun n' => runCmds_fields hcmds executed hnow n'

theorem writes_buildSetCmds (m : ValueMap String) : SetCmds m (buildSetCmds m) := by
  intro cmd h
  rw [buildSetCmds] at h
  rcases mem_cons.mp h with rfl | h
  · exact .inl rfl
  · split_ifs at h
    · cases h
    · exact .inr (mem_singleton.mp h)

/-! ## The other entries -/

def EntryChange.apply (m : ValueMap String) : EntryChange → ValueMap String
  | .save id value => m.insert id value
  | .delete id => m.erase id

theorem EntryChange.find_apply (m : ValueMap String) (ch : EntryChange) {n : String}
    (hn : n ≠ ch.id) : (ch.apply m).find n = m.find n := by
  cases ch with
  | save id value =>
    rw [apply, Lib.OrdMap.find_insert]
    exact if_neg (Ne.symm hn)
  | delete id =>
    rw [apply, Lib.OrdMap.find_erase]
    exact if_neg (Ne.symm hn)

/-- What is done to the hash once it has been read. -/
def EntryChange.effect (hash : Hash) (attempts : List Attempt) (ch : EntryChange) : Effect :=
  Effect.untouched.pipeline (buildSetCmds (ch.apply (readFields hash.entries))) attempts

theorem load_answered (hash : Hash) : (load hash true).2 = readFields hash.entries ∧
      ¬ ((load hash true).1 ≠ .ok ∧ (load hash true).1 ≠ .noent) := by
  rw [load]
  by_cases hempty : hash.entries = []
  · simp [hempty, readFields]
  · simp [hempty]

theorem change_fields (hash : Hash) (attempts : List Attempt) (ch : EntryChange) (n : String) :
    (change hash true attempts ch).2.lookup n
      = (ch.effect hash attempts).fields hash (ch.apply (readFields hash.entries)) n := by
  obtain ⟨hread, hloaded⟩ := load_answered hash
  have hset : ∀ m : ValueMap String, (save hash m attempts).2.lookup n
      = (Effect.untouched.pipeline (buildSetCmds m) attempts).fields hash m n := fun m =>
    commandPipeline_fields (writes_buildSetCmds m) attempts (fun _ => rfl) n
  cases ch with
  | save id value =>
    rw [change, if_neg hloaded, hread]
    exact hset _
  | delete id =>
    rw [change, if_neg hloaded, hread]
    split_ifs with hnil
    · have hcmds : buildSetCmds ((readFields hash.entries).erase id) = [.del] := by
        rw [buildSetCmds, if_pos hnil]
      rw [EntryChange.effect, EntryChange.apply, hcmds]
      refine commandPipeline_fields (fun cmd h => .inl ?_) attempts (fun _ => rfl) n
      exact mem_singleton.mp h
    · exact hset _

/-- When an effect leaves the entries other than `id` in place, the fields
having been read as `read`. -/
def Effect.Keeps (hash : Hash) (read : ValueMap String) (id : String) : Effect → Prop
  | .untouched => True
  | .deleted => ∀ n v, n ≠ id → hash.lookup n ≠ some v
  | .overlaid => ∀ n v, n ≠ id → hash.lookup n = some v → ∀ w, read.find n = some w → w = v
  | .rewritten => ∀ n v, n ≠ id → hash.lookup n = some v → read.find n = some v

theorem other_entries_kept_iff (hash : Hash) (answered : Bool) (attempts : List Attempt)
    (ch : EntryChange) : (∀ n v, n ≠ ch.id → hash.lookup n = some v →
        (change hash answered attempts ch).2.lookup n = some v) ↔
      answered = false ∨
        (ch.effect hash attempts).Keeps hash (readFields hash.entries) ch.id := by
  cases answered with
  | false =>
    refine iff_of_true (fun n v _ hv => ?_) (.inl rfl)
    cases ch with
    | save id value => exact hv
    | delete id => exact hv
  | true =>
    rw [or_iff_right (by simp)]
    simp only [change_fields]
    cases heffect : ch.effect hash attempts with
    | untouched => exact iff_of_true (fun n v _ hv => hv) trivial
    | deleted =>
      refine forall₃_congr fun n v hn => ?_
      simp [Effect.fields]
    | overlaid =>
      refine forall₄_congr fun n v hn hv => ?_
      rw [Effect.fields, ch.find_apply _ hn, hv]
      cases (readFields hash.entries).find n with
      | none => simp
      | some w => simp
    | rewritten =>
      refine forall₃_congr fun n v hn => ?_
      rw [Effect.fields, ch.find_apply _ hn]

/-! ## A failure between the two commands -/

def storedHash : Hash := ((∅ : Hash).insert "nfs_01" "a").insert "nfs_02" "b"

/-- `HGETALL` and `DEL` are executed, `HSET` is not, and the client gives up. -/
theorem hset_failure_loses_entries :
    (change storedHash true [.lost [true, false]] (.save "nfs_03" "c")).1 = .error ∧
      storedHash.lookup "nfs_01" = some "a" ∧
      (change storedHash true [.lost [true, false]] (.save "nfs_03" "c")).2.lookup "nfs_01"
        = none := by
  decide +kernel

end TairKvCache.Registry
