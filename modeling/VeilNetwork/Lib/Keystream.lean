import Mathlib.Data.List.Perm.Basic

/-!
# Layers of keystreams

A keystream is a byte for every position, and a layer is its sum, bit by bit, with a buffer.
Layers keep the length of a buffer, commute, and each is its own inverse; so the layers of a list
of keystreams can be taken off in any order (`Keystream.layers_cancel`).
-/

namespace VeilNetwork

open List

/-- The bytes of a stream cipher under one key and nonce. -/
abbrev Keystream : Type := ℕ → UInt8

namespace Keystream

/-- One layer. -/
def layer (ks : Keystream) (buf : List UInt8) : List UInt8 := buf.mapIdx fun i b => b ^^^ ks i

/-- A layer of each of some keystreams. -/
def layers (l : List Keystream) (buf : List UInt8) : List UInt8 :=
  l.foldl (fun buf ks => layer ks buf) buf

variable (ks ks' : Keystream) (buf : List UInt8)

theorem layer_comm : layer ks (layer ks' buf) = layer ks' (layer ks buf) := by
  simp only [layer, mapIdx_mapIdx]
  refine congrArg (fun f => mapIdx f buf) (funext fun i => funext fun b => ?_)
  simp only [Function.comp_apply, UInt8.xor_assoc, UInt8.xor_comm (ks i)]

theorem layer_layer : layer ks (layer ks buf) = buf := by
  simp only [layer, mapIdx_mapIdx]
  refine ext_getElem (by simp) fun i _ _ => ?_
  rw [getElem_mapIdx, Function.comp_apply, UInt8.xor_assoc, UInt8.xor_self, UInt8.xor_zero]

theorem layers_layer (l : List Keystream) : layers l (layer ks buf) = layer ks (layers l buf) := by
  induction l generalizing buf with
  | nil => rfl
  | cons ks' l ih =>
    change layers l (layer ks' (layer ks buf)) = layer ks (layers l (layer ks' buf))
    rw [layer_comm, ih]

/-- The order of the layers does not matter. -/
theorem layers_perm {l l' : List Keystream} (h : l.Perm l') : layers l buf = layers l' buf :=
  h.foldl_eq' (fun ks _ ks' _ buf => layer_comm ks' ks buf) buf

/-- **Layers come off in any order.** -/
theorem layers_cancel {l l' : List Keystream} (h : l.Perm l') :
    layers l' (layers l buf) = buf := by
  rw [← layers_perm _ h]
  induction l generalizing buf l' with
  | nil => rfl
  | cons ks l ih =>
    change layers l (layer ks (layers l (layer ks buf))) = buf
    rw [layers_layer, layers_layer, layers_layer, layer_layer]
    exact ih _ (.refl l)

end Keystream

end VeilNetwork
