import Arbor.Text.CodePoint

namespace Arbor.Text

/-- Start at seven; each word multiplies what came before by thirty-one and is added, in 32 bits. -/
def digest (words : List UInt32) : UInt32 := words.foldl (fun h w => h * 31 + w) 7

def digestText (t : Text) : UInt32 := digest (t.map fun p => UInt32.ofNat p.value)

@[simp] theorem digest_append_singleton (words : List UInt32) (w : UInt32) :
    digest (words ++ [w]) = digest words * 31 + w := by
  simp [digest, List.foldl_append]

end Arbor.Text
