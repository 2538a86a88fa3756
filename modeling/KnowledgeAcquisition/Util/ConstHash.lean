import Mathlib.Data.List.Basic

/-!
# String hashes

`ConstexprUtil::const_hash` of `util/constexpr_util.h`, and the published hash that it stands for. A string is the
list of its bytes; `char` is signed.
-/

namespace KnowledgeAcquisition.Util

/-- `static_cast<uint64_t>(c)` for a `char`: the sign is carried into the upper bytes. -/
def word (c : UInt8) : UInt64 := c.toInt8.toInt64.toUInt64

def constHash (str : List UInt8) : UInt64 :=
  str.foldl (fun hash c => (hash ^^^ word c) * 0x100000001b3) 0xcbf29ce484222325

/-- The 64-bit FNV-1a hash as it is published, over bytes from 0 to 255. -/
def fnv1a (str : List UInt8) : UInt64 :=
  str.foldl (fun hash byte => (hash ^^^ byte.toUInt64) * 0x100000001b3) 0xcbf29ce484222325

end KnowledgeAcquisition.Util
