-- The flow value of ofctrl.c: a key (table, priority, match) with a hash of the key, and a
-- value (actions, cookie). Two flows are the same slot of a table when their keys are
-- equal; the actions and the cookie are not part of the key.
import Mathlib.Logic.Function.Basic

namespace OvnOfctrl

/-! ## Matches and hashes -/

/-- A `struct minimatch`: the values and the mask of a wildcarded match. `minimatch_equal`
compares both, so equality of this structure is `minimatch_equal`. -/
structure Minimatch where
  flow : List UInt32
  mask : List UInt32
deriving DecidableEq, Repr

/-- The library's `minimatch_hash`. The engine only needs it to be a function of the
match, so a plain fold of the match's words stands for it. -/
def minimatch_hash (m : Minimatch) (basis : UInt32) : UInt32 :=
  (m.flow ++ m.mask).foldl (fun h w => h * 31 + w) basis

/-- The library's `hash_2words`, standing for it in the same way. -/
def hash_2words (x y : UInt32) : UInt32 := x * 0x9e3779b1 + y

/-- A `struct uuid` of the southbound database. -/
abbrev Uuid := Nat

/-! ## The flow -/

/-- A `struct ovn_flow`: the key, its hash, and the data. `ofpacts` is the action buffer,
compared and concatenated byte for byte. -/
structure OvnFlow where
  table_id : UInt8
  priority : UInt16
  match_ : Minimatch
  hash : UInt32
  ofpacts : List UInt8
  cookie : UInt64
deriving DecidableEq, Repr

/-- The key of a flow: the fields `desired_flow_lookup` and `installed_flow_lookup`
compare. -/
structure FlowKey where
  table_id : UInt8
  priority : UInt16
  match_ : Minimatch
deriving DecidableEq, Repr

def OvnFlow.key (f : OvnFlow) : FlowKey := ⟨f.table_id, f.priority, f.match_⟩

/-- `ovn_flow_match_hash`: a hash of the key of `f`. -/
def ovn_flow_match_hash (table_id : UInt8) (priority : UInt16) (m : Minimatch) : UInt32 :=
  hash_2words ((table_id.toUInt32 <<< 16) ||| priority.toUInt32) (minimatch_hash m 0)

/-- `ovn_flow_init`: the flow with the given key and data, and the hash of its key. -/
def ovn_flow_init (table_id : UInt8) (priority : UInt16) (cookie : UInt64) (m : Minimatch)
    (actions : List UInt8) : OvnFlow :=
  { table_id, priority, match_ := m, ofpacts := actions, cookie,
    hash := ovn_flow_match_hash table_id priority m }

/-- A flow's hash is the hash of its key. `ovn_flow_init` makes it so, and nothing in
ofctrl.c writes a key or a hash afterwards. -/
def OvnFlow.HashOk (f : OvnFlow) : Prop := f.hash = ovn_flow_match_hash f.table_id f.priority f.match_

instance (f : OvnFlow) : Decidable f.HashOk := inferInstanceAs (Decidable (_ = _))

@[simp] theorem ovn_flow_init_key (t : UInt8) (p : UInt16) (c : UInt64) (m : Minimatch)
    (a : List UInt8) : (ovn_flow_init t p c m a).key = ⟨t, p, m⟩ := rfl

@[simp] theorem ovn_flow_init_ofpacts (t : UInt8) (p : UInt16) (c : UInt64) (m : Minimatch)
    (a : List UInt8) : (ovn_flow_init t p c m a).ofpacts = a := rfl

@[simp] theorem ovn_flow_init_cookie (t : UInt8) (p : UInt16) (c : UInt64) (m : Minimatch)
    (a : List UInt8) : (ovn_flow_init t p c m a).cookie = c := rfl

theorem ovn_flow_init_hashOk (t : UInt8) (p : UInt16) (c : UInt64) (m : Minimatch)
    (a : List UInt8) : (ovn_flow_init t p c m a).HashOk := rfl

theorem hash_eq_of_key_eq {f g : OvnFlow} (hf : f.HashOk) (hg : g.HashOk)
    (h : f.key = g.key) : f.hash = g.hash := by
  simp only [OvnFlow.key, FlowKey.mk.injEq] at h
  rw [hf, hg, h.1, h.2.1, h.2.2]

theorem OvnFlow.eq_of_key_data {f g : OvnFlow} (hk : f.key = g.key) (hh : f.hash = g.hash)
    (ha : f.ofpacts = g.ofpacts) (hc : f.cookie = g.cookie) : f = g := by
  cases f; cases g
  simp only [OvnFlow.key, FlowKey.mk.injEq] at hk
  simp_all

/-! ## Heaps -/

/-- The objects of one kind that the C code allocates, by address. Addresses come from
a counter and are never reused. -/
abbrev Heap (α : Type) := Nat → Option α

end OvnOfctrl
