import DsmStorage.RewardsBytes
import DsmStorage.RewardsRatio
import DsmStorage.RewardsReceipt
import DsmStorage.RewardsCalculation
import DsmStorage.RewardsManager
import DsmStorage.RewardsVault
import DsmStorage.RewardsReceiptRegistry
import DsmStorage.RewardsVaultRuns
import DsmStorage.RewardsScheduler
import DsmStorage.RewardsU64
import DsmStorage.RewardsCustody
